import Mathlib.Data.Finset.Card
import Mathlib.Order.Bounds.Basic

/-! # Four-phase consensus over summary registers

A quorum system is a family of finite sets any two of which meet; no other property of
a majority is used by the consensus argument.

A history collects what a single consensus instance did: the proposals offered at
each logical step, the answers of the recorders, and the decisions in the order
in which they were taken. A recorder that already knows a decision may answer with
that decision instead of its register; such an echo only ever repeats an older
decision, which is why decisions carry a rank.

`Sound` lists the local facts that registers and proposers guarantee. Agreement
follows from them and from quorum intersection alone.
-/

namespace Rhiza.Foundations

variable {α : Type*}

/-- A family of finite sets in which any two members intersect. -/
structure QuorumSystem (α : Type*) where
  IsQuorum : Finset α → Prop
  meet : ∀ {left right : Finset α}, IsQuorum left → IsQuorum right →
    ∃ member, member ∈ left ∧ member ∈ right

/-- The sets of voters that hold more than half of all voters. -/
def QuorumSystem.majority [DecidableEq α] (voters : Finset α) : QuorumSystem α where
  IsQuorum members := members ⊆ voters ∧ voters.card / 2 + 1 ≤ members.card
  meet := by
    rintro left right ⟨hleft, hleftCard⟩ ⟨hright, hrightCard⟩
    have hcard : voters.card < left.card + right.card := by omega
    obtain ⟨member, hseat⟩ :=
      Finset.inter_nonempty_of_card_lt_card_add_card hleft hright hcard
    exact ⟨member, Finset.mem_inter.mp hseat⟩

theorem QuorumSystem.majority_of_list [DecidableEq α] {voters members : List α}
    (hmembers : members.Nodup) (hsub : members ⊆ voters)
    (hcard : voters.length / 2 + 1 ≤ members.length) :
    (QuorumSystem.majority voters.toFinset).IsQuorum members.toFinset := by
  refine ⟨?_, ?_⟩
  · intro member hseat
    rw [List.mem_toFinset] at hseat ⊢
    exact hsub hseat
  · rw [List.toFinset_card_of_nodup hmembers]
    have hle := List.toFinset_card_le voters
    omega

/-- The observable trace of one consensus instance over recorders `R` and ranked
proposals `K`. -/
structure History (R K : Type*) where
  /-- A proposal was offered to the recorders at a step. -/
  Sent : ℕ → K → Prop
  /-- A register answered an offer at its own step, with its first and prior fields. -/
  Recorded : R → ℕ → K → K → Option K → Prop
  /-- The decision of a given rank was taken at a step. -/
  Decided : ℕ → ℕ → K → Prop

namespace History

variable {R K V : Type*} [LinearOrder K]
variable (history : History R K) (quorums : QuorumSystem R)
variable (Highest : K → Prop) (value : K → V)

/-- An answer at the offered step, by the register or by echoing a decision of
lower rank. -/
def Answer (rank : ℕ) (recorder : R) (step : ℕ) (offer first : K) (prior : Option K) : Prop :=
  history.Recorded recorder step offer first prior ∨
    ∃ older decidedStep, older < rank ∧ decidedStep ≤ step ∧
      history.Decided older decidedStep first ∧ prior = some first

/-- A quorum answered offers of one step. -/
def Gathered (rank step : ℕ) (offer : R → K) (members : Finset R) (first : R → K)
    (prior : R → Option K) : Prop :=
  quorums.IsQuorum members ∧ ∀ recorder ∈ members,
    history.Answer rank recorder step (offer recorder) (first recorder) (prior recorder)

/-- The proposals reported as prior aggregates by a set of recorders. -/
def priors (members : Finset R) (prior : R → Option K) : Set K :=
  {proposal | ∃ recorder ∈ members, prior recorder = some proposal}

/-- The proposals reported as first by a set of recorders. -/
def firsts (members : Finset R) (first : R → K) : Set K :=
  {proposal | ∃ recorder ∈ members, first recorder = proposal}

/-- Evidence of a decision taken with the highest priority at step four. -/
def FastCertified (rank step : ℕ) (proposal : K) : Prop :=
  step = 4 ∧ Highest proposal ∧ ∃ (offer : R → K) (members : Finset R) (prior : R → Option K),
    history.Gathered quorums rank 4 offer members (fun _ => proposal) prior

/-- Evidence of a decision taken in the third phase of a round: the offer itself is
the greatest prior aggregate. -/
def PhaseCertified (rank step : ℕ) (proposal : K) : Prop :=
  step % 4 = 2 ∧ history.Sent step proposal ∧
    ∃ (members : Finset R) (first : R → K) (prior : R → Option K),
      history.Gathered quorums rank step (fun _ => proposal) members first prior ∧
        IsGreatest (priors members prior) proposal

/-- Evidence of a decision, using echoes of lower rank only. -/
def Certified (rank step : ℕ) (proposal : K) : Prop :=
  history.FastCertified quorums Highest rank step proposal ∨
    history.PhaseCertified quorums rank step proposal

/-- How a proposer that completed the previous step obtains the proposal of a step. -/
def Origin (step : ℕ) (proposal : K) : Prop :=
  ∃ (rank : ℕ) (offer : K) (members : Finset R) (first : R → K) (prior : R → Option K),
    history.Sent (step - 1) offer ∧
    history.Gathered quorums rank (step - 1) (fun _ => offer) members first prior ∧
      ((step % 4 = 1 ∧ IsGreatest (firsts members first) proposal) ∨
        ((step % 4 = 2 ∨ step % 4 = 3) ∧ proposal = offer) ∨
          (step % 4 = 0 ∧ IsGreatest (priors members prior) proposal))

/-- The local guarantees of registers and proposers. -/
structure Sound : Prop where
  four_le : ∀ {step proposal}, history.Sent step proposal → 4 ≤ step
  first_sent : ∀ {recorder step offer first prior},
    history.Recorded recorder step offer first prior → history.Sent step first
  prior_sent : ∀ {recorder step offer first proposal},
    history.Recorded recorder (step + 1) offer first (some proposal) →
      history.Sent step proposal
  /-- A register keeps the first proposal of a step. -/
  first_stable : ∀ {recorder step offer offer' first first' prior prior'},
    history.Recorded recorder step offer first prior →
      history.Recorded recorder step offer' first' prior' → first = first'
  /-- What a register acknowledged at a step is part of the aggregate it reports
  at the next one. -/
  prior_dominates : ∀ {recorder step offer offer' first first' prior prior'},
    history.Recorded recorder step offer first prior →
      history.Recorded recorder (step + 1) offer' first' prior' →
        ∃ proposal, prior' = some proposal ∧ offer ≤ proposal
  /-- Beyond the first step every offer descends from a completed step; only the
  priority may be drawn anew, and only at the start of a round. -/
  sent_origin : ∀ {step proposal}, history.Sent step proposal → 4 < step →
    ∃ source, history.Origin quorums step source ∧
      (proposal = source ∨ step % 4 = 0 ∧ value proposal = value source)
  decided_certified : ∀ {rank step proposal}, history.Decided rank step proposal →
    history.Certified quorums Highest rank step proposal
  highest_upward : ∀ {lower upper : K}, Highest lower → lower ≤ upper → Highest upper
  highest_unique : ∀ {left right}, history.Sent 4 left → history.Sent 4 right →
    Highest left → Highest right → left = right

/-- Everything that happened in one history also happened in the other. -/
structure Extends (history later : History R K) : Prop where
  sent : ∀ {step proposal}, history.Sent step proposal → later.Sent step proposal
  recorded : ∀ {recorder step offer first prior},
    history.Recorded recorder step offer first prior →
      later.Recorded recorder step offer first prior
  decided : ∀ {rank step proposal}, history.Decided rank step proposal →
    later.Decided rank step proposal

section Extends

variable {history later : History R K} {quorums : QuorumSystem R} {Highest : K → Prop}
variable {rank rank' step : ℕ} {proposal : K}

omit [LinearOrder K] in
theorem Extends.refl (history : History R K) : history.Extends history := ⟨id, id, id⟩

omit [LinearOrder K] in
theorem Answer.mono (hgrow : history.Extends later) (hrank : rank ≤ rank') {recorder : R}
    {offer first : K} {prior : Option K}
    (hsay : history.Answer rank recorder step offer first prior) :
    later.Answer rank' recorder step offer first prior := by
  rcases hsay with hrec | ⟨older, decidedStep, hlt, hle, hdec, hprior⟩
  · exact .inl (hgrow.recorded hrec)
  · exact .inr ⟨older, decidedStep, hlt.trans_le hrank, hle, hgrow.decided hdec, hprior⟩

omit [LinearOrder K] in
theorem Gathered.mono (hgrow : history.Extends later) (hrank : rank ≤ rank') {offer : R → K}
    {members : Finset R} {first : R → K} {prior : R → Option K}
    (hpool : history.Gathered quorums rank step offer members first prior) :
    later.Gathered quorums rank' step offer members first prior :=
  ⟨hpool.1, fun recorder hseat => (hpool.2 recorder hseat).mono hgrow hrank⟩

theorem Certified.mono (hgrow : history.Extends later) (hrank : rank ≤ rank')
    (hcert : history.Certified quorums Highest rank step proposal) :
    later.Certified quorums Highest rank' step proposal := by
  rcases hcert with ⟨hstep, hhigh, offer, members, prior, hpool⟩ |
      ⟨hphase, hsent, members, first, prior, hpool, hmax⟩
  · exact .inl ⟨hstep, hhigh, offer, members, prior, hpool.mono hgrow hrank⟩
  · exact .inr ⟨hphase, hgrow.sent hsent, members, first, prior, hpool.mono hgrow hrank, hmax⟩

theorem Origin.mono (hgrow : history.Extends later)
    (hseed : history.Origin quorums step proposal) : later.Origin quorums step proposal := by
  obtain ⟨rank, offer, members, first, prior, hsent, hpool, hcases⟩ := hseed
  exact ⟨rank, offer, members, first, prior, hgrow.sent hsent, hpool.mono hgrow le_rfl, hcases⟩

end Extends

end History

end Rhiza.Foundations
