import Mathlib.Data.Nat.Find
import Rhiza.Foundations.RegisterConsensus

/-! # Agreement of summary-register consensus

The argument looks at the earliest evidence of a decision: least step first, least
rank among the evidence at that step. Its answers are all register answers, its
proposal bounds every offer of that step, and from the next round on every offer
carries its value. All other evidence is then compared with this one.
-/

namespace Rhiza.Foundations.History

variable {R K V : Type*} [LinearOrder K]
variable {history : History R K} {quorums : QuorumSystem R}
variable {Highest : K → Prop} {value : K → V} {rank step : ℕ} {proposal : K}

/-- Evidence of least step, and of least rank among the evidence at that step. -/
structure Earliest (history : History R K) (quorums : QuorumSystem R) (Highest : K → Prop)
    (rank step : ℕ) (proposal : K) : Prop where
  certified : history.Certified quorums Highest rank step proposal
  step_le : ∀ {rank' step' proposal'},
    history.Certified quorums Highest rank' step' proposal' → step ≤ step'
  rank_le : ∀ {rank' proposal'},
    history.Certified quorums Highest rank' step proposal' → rank ≤ rank'

theorem exists_earliest
    (hcert : history.Certified quorums Highest rank step proposal) :
    ∃ rank₀ step₀ proposal₀, Earliest history quorums Highest rank₀ step₀ proposal₀ := by
  classical
  have hstep : ∃ s r k, history.Certified quorums Highest r s k := ⟨step, rank, proposal, hcert⟩
  have hrank : ∃ r k, history.Certified quorums Highest r (Nat.find hstep) k := Nat.find_spec hstep
  obtain ⟨proposal₀, hfirst⟩ := Nat.find_spec hrank
  refine ⟨Nat.find hrank, Nat.find hstep, proposal₀, hfirst, ?_, ?_⟩
  · intro rank' step' proposal' h
    exact Nat.find_min' hstep ⟨rank', proposal', h⟩
  · intro rank' proposal' h
    exact Nat.find_min' hrank ⟨proposal', h⟩

omit [LinearOrder K] in
/-- A quorum is inhabited, so a gathered answer exists. -/
theorem Gathered.exists_answer {offer : R → K} {members : Finset R}
    {first : R → K} {prior : R → Option K}
    (hpool : history.Gathered quorums rank step offer members first prior) :
    ∃ recorder ∈ members,
      history.Answer rank recorder step (offer recorder) (first recorder) (prior recorder) := by
  obtain ⟨recorder, hseat, -⟩ := quorums.meet hpool.1 hpool.1
  exact ⟨recorder, hseat, hpool.2 recorder hseat⟩

theorem Certified.step_cases
    (hcert : history.Certified quorums Highest rank step proposal) : step = 4 ∨ step % 4 = 2 := by
  rcases hcert with hfast | hphase
  · exact .inl hfast.1
  · exact .inr hphase.1

/-- An offer in the third phase was acknowledged by a quorum in the second one. -/
theorem Sound.phase_two_origin (hsound : history.Sound quorums Highest value) {offer : K}
    (hsent : history.Sent step offer) (hphase : step % 4 = 2) :
    ∃ (rank : ℕ) (members : Finset R) (first : R → K) (prior : R → Option K),
      history.Gathered quorums rank (step - 1) (fun _ => offer) members first prior := by
  have hfour := hsound.four_le hsent
  obtain ⟨source, ⟨rank, origin, members, first, prior, -, hpool, hcases⟩, heq⟩ :=
    hsound.sent_origin hsent (by omega)
  rcases heq with rfl | ⟨hzero, -⟩
  · rcases hcases with ⟨hone, -⟩ | ⟨-, rfl⟩ | ⟨hzero, -⟩
    · omega
    · exact ⟨rank, members, first, prior, hpool⟩
    · omega
  · omega

namespace Earliest

variable {rank step : ℕ} {proposal : K}

section Earliest

variable (hearly : Earliest history quorums Highest rank step proposal)
  (hsound : history.Sound quorums Highest value) {rank' : ℕ} {recorder : R} {offer first : K}
  {prior : Option K}
include hearly hsound

/-- Before the earliest evidence nothing was decided, so no answer is an echo. -/
theorem recorded_of_lt {step' : ℕ}
    (hsay : history.Answer rank' recorder step' offer first prior) (hlt : step' < step) :
    history.Recorded recorder step' offer first prior := by
  rcases hsay with hrec | ⟨older, decidedStep, -, hle, hdec, -⟩
  · exact hrec
  · have hleast := hearly.step_le (hsound.decided_certified hdec)
    omega

/-- The answers of the earliest evidence come from registers. -/
theorem recorded_of_answer
    (hsay : history.Answer rank recorder step offer first prior) :
    history.Recorded recorder step offer first prior := by
  rcases hsay with hrec | ⟨older, decidedStep, hlt, hle, hdec, -⟩
  · exact hrec
  · have hcert := hsound.decided_certified hdec
    have hstep : decidedStep = step := le_antisymm hle (hearly.step_le hcert)
    subst hstep
    have hleast := hearly.rank_le hcert
    omega

theorem sent : history.Sent step proposal := by
  rcases hearly.certified with ⟨rfl, -, offer, members, prior, hpool⟩ | ⟨-, hsent, -⟩
  · obtain ⟨recorder, -, hsay⟩ := hpool.exists_answer
    exact hsound.first_sent (hearly.recorded_of_answer hsound hsay)
  · exact hsent

/-- The proposal of the earliest evidence bounds every offer of its step. -/
theorem sent_le (hoffer : history.Sent step offer) : offer ≤ proposal := by
  have hsent := hearly.sent hsound
  rcases hearly.certified with ⟨rfl, hhigh, -⟩ |
      ⟨hphase, -, members, first, prior, hpool, hmax⟩
  · by_contra hlt
    have hle : proposal ≤ offer := le_of_not_ge hlt
    have heq := hsound.highest_unique hsent hoffer hhigh
      (hsound.highest_upward hhigh hle)
    exact hlt heq.ge
  · -- The quorum that acknowledged the offer one step earlier meets the evidence.
    obtain ⟨rank', members', first', prior', hpre⟩ := hsound.phase_two_origin hoffer hphase
    obtain ⟨recorder, hseat, hseat'⟩ := quorums.meet hpool.1 hpre.1
    have hnow := hearly.recorded_of_answer hsound (hpool.2 recorder hseat)
    have hpast := hearly.recorded_of_lt hsound (hpre.2 recorder hseat') (by omega)
    have hstep : step = step - 1 + 1 := by omega
    rw [hstep] at hnow
    obtain ⟨aggregate, hprior, hle⟩ := hsound.prior_dominates hpast hnow
    exact hle.trans (hmax.2 ⟨recorder, hseat, hprior⟩)

/-- All evidence at the earliest step is for the same proposal. -/
theorem eq_of_certified {proposal' : K}
    (hcert : history.Certified quorums Highest rank' step proposal') : proposal' = proposal := by
  -- Induction on the rank: an echo in the evidence repeats an older decision.
  induction rank' using Nat.strong_induction_on generalizing proposal' with
  | _ rank' ih =>
    have hecho : ∀ {older decidedStep : ℕ} {first : K}, older < rank' → decidedStep ≤ step →
        history.Decided older decidedStep first → first = proposal := by
      intro older decidedStep first hlt hle hdec
      have hold := hsound.decided_certified hdec
      have hstep : decidedStep = step := le_antisymm hle (hearly.step_le hold)
      subst hstep
      exact ih older hlt hold
    rcases hearly.certified with ⟨hfour, -, offer, members, prior, hpool⟩ |
        ⟨hphase, hsent, -⟩
    · rcases hcert with ⟨-, -, offer', members', prior', hpool'⟩ | ⟨htwo, -⟩
      · obtain ⟨recorder, hseat, hseat'⟩ := quorums.meet hpool.1 hpool'.1
        subst hfour
        have hmine := hearly.recorded_of_answer hsound (hpool.2 recorder hseat)
        rcases hpool'.2 recorder hseat' with hrec | ⟨older, decidedStep, hlt, hle, hdec, -⟩
        · exact hsound.first_stable hrec hmine
        · exact hecho hlt hle hdec
      · omega
    · rcases hcert with ⟨hfour, -⟩ |
          ⟨-, hsent', members', first', prior', hpool', hmax'⟩
      · omega
      · refine le_antisymm (hearly.sent_le hsound hsent') ?_
        obtain ⟨rank₁, members₁, first₁, prior₁, hpre⟩ := hsound.phase_two_origin hsent hphase
        obtain ⟨recorder, hseat, hseat'⟩ := quorums.meet hpre.1 hpool'.1
        have hpast := hearly.recorded_of_lt hsound (hpre.2 recorder hseat) (by omega)
        rcases hpool'.2 recorder hseat' with hrec | ⟨older, decidedStep, hlt, hle, hdec, hprior⟩
        · have hstep : step = step - 1 + 1 := by omega
          rw [hstep] at hrec
          obtain ⟨aggregate, hprior, hle⟩ := hsound.prior_dominates hpast hrec
          exact hle.trans (hmax'.2 ⟨recorder, hseat', hprior⟩)
        · have heq := hecho hlt hle hdec
          exact hmax'.2 ⟨recorder, hseat', hprior.trans (congrArg some heq)⟩

/-- A decision that is echoed no later than one step on is the one of the earliest evidence. -/
theorem eq_of_decided {older decidedStep : ℕ} (hle : decidedStep ≤ step + 1)
    (hdec : history.Decided older decidedStep first) : first = proposal := by
  have hold := hsound.decided_certified hdec
  have hleast := hearly.step_le hold
  have hcases := hold.step_cases
  have hthis := hearly.certified.step_cases
  obtain rfl : decidedStep = step := by omega
  exact hearly.eq_of_certified hsound hold

end Earliest

/-- From `start` on, every offer carries the value of the earliest evidence. -/
def LockedFrom (history : History R K) (value : K → V) (start : ℕ) (proposal : K) : Prop :=
  ∀ {offer}, history.Sent start offer → value offer = value proposal

theorem lockedFrom_of_origin (hsound : history.Sound quorums Highest value) {start : ℕ}
    (hfour : 4 < start)
    (hseed : ∀ {source}, history.Origin quorums start source → source = proposal) :
    LockedFrom history value start proposal := by
  intro offer hoffer
  obtain ⟨source, horigin, heq⟩ := hsound.sent_origin hoffer hfour
  obtain rfl := hseed horigin
  rcases heq with rfl | ⟨-, heq⟩
  · rfl
  · exact heq

section Locked

variable (hearly : Earliest history quorums Highest rank step proposal)
  (hsound : history.Sound quorums Highest value)
include hearly hsound

/-- After a decision at step four, every offer of the next step is its proposal. -/
theorem lockedFrom_fast (hstep : step = 4) : LockedFrom history value 5 proposal := by
  refine lockedFrom_of_origin hsound (by omega) ?_
  rintro source ⟨rank', origin, members', first', prior', -, hpool', hcases⟩
  have hmax : IsGreatest (firsts members' first') source := by
    rcases hcases with ⟨-, h⟩ | ⟨h, -⟩ | ⟨h, -⟩
    · exact h
    · omega
    · omega
  rcases hearly.certified with ⟨rfl, -, offer₀, members, prior, hpool⟩ | ⟨htwo, -⟩
  swap
  · omega
  refine le_antisymm ?_ ?_
  · obtain ⟨recorder, hseat, rfl⟩ := hmax.1
    rcases hpool'.2 recorder hseat with hrec | ⟨_, _, -, hle, hdec, -⟩
    · exact hearly.sent_le hsound (hsound.first_sent hrec)
    · exact (hearly.eq_of_decided hsound (by omega) hdec).le
  · obtain ⟨recorder, hseat, hseat'⟩ := quorums.meet hpool.1 hpool'.1
    refine hmax.2 ⟨recorder, hseat', ?_⟩
    rcases hpool'.2 recorder hseat' with hrec | ⟨_, _, -, hle, hdec, -⟩
    · exact hsound.first_stable hrec
        (hearly.recorded_of_answer hsound (hpool.2 recorder hseat))
    · exact hearly.eq_of_decided hsound (by omega) hdec

/-- After a decision in the third phase, every offer of the next round carries its
value. -/
theorem lockedFrom_phase (hphase : step % 4 = 2) :
    LockedFrom history value (step + 2) proposal := by
  have hfour := hsound.four_le (hearly.sent hsound)
  refine @lockedFrom_of_origin _ _ _ _ _ _ _ _ _ hsound (step + 2) (by omega) ?_
  rintro source ⟨rank', origin, members', first', prior', -, hpool', hcases⟩
  have hpre : step + 2 - 1 = step + 1 := by omega
  rw [hpre] at hpool'
  have hmax : IsGreatest (priors members' prior') source := by
    rcases hcases with ⟨h, -⟩ | ⟨h, -⟩ | ⟨-, h⟩
    · omega
    · omega
    · exact h
  rcases hearly.certified with ⟨hfour, -⟩ | ⟨-, -, members, first, prior, hpool, -⟩
  · omega
  refine le_antisymm ?_ ?_
  · obtain ⟨recorder, hseat, hprior⟩ := hmax.1
    rcases hpool'.2 recorder hseat with hrec | ⟨_, _, -, hle, hdec, hsame⟩
    · rw [hprior] at hrec
      exact hearly.sent_le hsound (hsound.prior_sent hrec)
    · rw [hprior, Option.some_inj] at hsame
      exact (hsame.trans (hearly.eq_of_decided hsound hle hdec)).le
  · obtain ⟨recorder, hseat, hseat'⟩ := quorums.meet hpool.1 hpool'.1
    have hpast := hearly.recorded_of_answer hsound (hpool.2 recorder hseat)
    rcases hpool'.2 recorder hseat' with hrec | ⟨_, _, -, hle, hdec, hsame⟩
    · obtain ⟨aggregate, hprior, hle⟩ := hsound.prior_dominates hpast hrec
      exact hle.trans (hmax.2 ⟨recorder, hseat', hprior⟩)
    · have heq := hearly.eq_of_decided hsound hle hdec
      exact hmax.2 ⟨recorder, hseat', hsame.trans (congrArg some heq)⟩

/-- A lock at the start of a round, or one step later, is never lost. -/
theorem locked_of_le {start : ℕ} (hlocked : LockedFrom history value start proposal)
    (hstart : start % 4 = 0 ∨ start % 4 = 1) (hfour : 4 ≤ start)
    (hgap : ∀ {rank' step' proposal'}, history.Certified quorums Highest rank' step' proposal' →
      step' = step ∨ start ≤ step' ∧ history.Sent step' proposal')
    {current : ℕ} (hle : start ≤ current) : LockedFrom history value current proposal := by
  induction current using Nat.strong_induction_on with
  | _ current ih =>
    rcases Nat.eq_or_lt_of_le hle with rfl | hlt
    · exact hlocked
    · intro offer hoffer
      have hecho : ∀ {older decidedStep : ℕ} {first : K}, decidedStep < current →
          history.Decided older decidedStep first → value first = value proposal := by
        intro older decidedStep first hbelow hdec
        have hold := hsound.decided_certified hdec
        rcases hgap hold with rfl | ⟨hfrom, hsent⟩
        · rw [hearly.eq_of_certified hsound hold]
        · exact ih decidedStep hbelow hfrom hsent
      obtain ⟨source, ⟨rank', origin, members, first, prior, hpre, hpool, hcases⟩, heq⟩ :=
        hsound.sent_origin hoffer (lt_of_le_of_lt hfour hlt)
      have hvalue : value offer = value source := by
        rcases heq with rfl | ⟨-, heq⟩
        · rfl
        · exact heq
      rw [hvalue]
      rcases hcases with ⟨hone, hmax⟩ | ⟨-, rfl⟩ | ⟨hzero, hmax⟩
      · obtain ⟨recorder, hseat, rfl⟩ := hmax.1
        rcases hpool.2 recorder hseat with hrec | ⟨_, _, -, hle, hdec, -⟩
        · exact ih (current - 1) (by omega) (by omega) (hsound.first_sent hrec)
        · exact hecho (by omega) hdec
      · exact ih (current - 1) (by omega) (by omega) hpre
      · obtain ⟨recorder, hseat, hprior⟩ := hmax.1
        rcases hpool.2 recorder hseat with hrec | ⟨_, _, -, hle, hdec, hsame⟩
        · have hstep : current - 1 = current - 2 + 1 := by omega
          rw [hprior, hstep] at hrec
          exact ih (current - 2) (by omega) (by omega) (hsound.prior_sent hrec)
        · rw [hprior, Option.some_inj] at hsame
          rw [hsame]
          exact hecho (by omega) hdec

/-- All evidence carries the value of the earliest evidence. -/
theorem value_eq {rank' step' : ℕ} {proposal' : K}
    (hcert : history.Certified quorums Highest rank' step' proposal') :
    value proposal' = value proposal := by
  have hfour := hsound.four_le (hearly.sent hsound)
  have hlater : ∀ {rank' step' proposal'},
      history.Certified quorums Highest rank' step' proposal' → step' ≠ step →
        step < step' ∧ step' % 4 = 2 ∧ history.Sent step' proposal' := by
    intro rank' step' proposal' h hne
    have hlt : step < step' := lt_of_le_of_ne (hearly.step_le h) (Ne.symm hne)
    rcases h with ⟨rfl, -⟩ | ⟨htwo, hsent, -⟩
    · omega
    · exact ⟨hlt, htwo, hsent⟩
  by_cases heq : step' = step
  · subst heq
    rw [hearly.eq_of_certified hsound hcert]
  · obtain ⟨hlt, htwo, hsent⟩ := hlater hcert heq
    have hlock : ∃ start, LockedFrom history value start proposal ∧
        (start % 4 = 0 ∨ start % 4 = 1) ∧ step < start ∧
        ∀ later, step < later → later % 4 = 2 → start ≤ later := by
      rcases hearly.certified.step_cases with hfast | hphase
      · exact ⟨5, hearly.lockedFrom_fast hsound hfast, by omega, by omega, by omega⟩
      · exact ⟨step + 2, hearly.lockedFrom_phase hsound hphase, by omega, by omega, by omega⟩
    obtain ⟨start, hlocked, hstart, hafter, hnext⟩ := hlock
    refine hearly.locked_of_le hsound hlocked hstart (by omega) ?_ (hnext _ hlt htwo) hsent
    intro rank₁ step₁ proposal₁ h
    by_cases heq₁ : step₁ = step
    · exact .inl heq₁
    · obtain ⟨hlt₁, htwo₁, hsent₁⟩ := hlater h heq₁
      exact .inr ⟨hnext _ hlt₁ htwo₁, hsent₁⟩

end Locked

end Earliest

/-- Any two pieces of decision evidence carry the same value. -/
theorem Sound.certified_agree (hsound : history.Sound quorums Highest value)
    {rank' step' : ℕ} {proposal' : K} (hleft : history.Certified quorums Highest rank step proposal)
    (hright : history.Certified quorums Highest rank' step' proposal') :
    value proposal = value proposal' := by
  obtain ⟨rank₀, step₀, proposal₀, hearly⟩ := exists_earliest hleft
  rw [hearly.value_eq hsound hleft, hearly.value_eq hsound hright]

end Rhiza.Foundations.History
