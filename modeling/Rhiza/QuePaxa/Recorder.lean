import Mathlib.Order.WithBot
import Rhiza.QuePaxa.Types

/-! # Ranked proposals and interval summary registers

Proposals are compared by priority, proposer and value hash, in this order; the
value bytes are not part of the comparison. An absent proposal is below every
present one. `Proposal.rank` is the key of the comparison, and the selection
functions of the protocol are the maxima of their keys.

The constant-space register a recorder keeps for each slot remembers the first
proposal of its current step, the greatest proposal of that step, and the greatest
proposal of the step before when it did not skip one.
-/

namespace Rhiza.QuePaxa

def highestPriority : Priority := Fin.last (2 ^ 256 - 1)

/-- The priority made from 256 drawn bits: the zero and the highest priority are
replaced by ones whose last byte is one. -/
def randomPriority (drawn : Priority) : Priority :=
  if drawn = 0 then 1
  else if drawn = highestPriority then highestPriority - 254
  else drawn

theorem randomPriority_ne_highest (drawn : Priority) : randomPriority drawn ≠ highestPriority := by
  unfold randomPriority
  split
  · decide
  · split
    · decide
    · assumption

def newProposal (codec : Codec) (priority : Priority) (proposerID : NodeID) (value : Bytes) :
    Proposal :=
  { priority, proposerID, hash := codec.sha256 value, value }

/-- Comparison in a linear order, as `bytes.Compare` orders identifiers and hashes. -/
def compareKey {α : Type*} [LinearOrder α] (left right : α) : Ordering := cmp left right

def compareProposal : Option Proposal → Option Proposal → Ordering
  | none, none => .eq
  | none, some _ => .lt
  | some _, none => .gt
  | some left, some right =>
    (compareKey left.priority right.priority).then
      ((compareKey left.proposerID right.proposerID).then (compareKey left.hash right.hash))

def maxProposal (values : List (Option Proposal)) : Option Proposal :=
  values.foldl (fun best value => if compareProposal value best = .gt then value else best) none

def sameProposal (left right : Option Proposal) : Bool := compareProposal left right = .eq

/-- The comparison key of a proposal. -/
abbrev Rank := Priority ×ₗ NodeID ×ₗ ValueHash

def Proposal.rank (proposal : Proposal) : Rank :=
  toLex (proposal.priority, toLex (proposal.proposerID, proposal.hash))

/-- The value hash a key refers to. -/
def Rank.hash (rank : Rank) : ValueHash := (ofLex (ofLex rank).2).2

def Rank.priority (rank : Rank) : Priority := (ofLex rank).1

@[simp] theorem Proposal.rank_hash (proposal : Proposal) :
    Rank.hash proposal.rank = proposal.hash := rfl

/-- The key of a possibly absent proposal. -/
def rankOf (proposal : Option Proposal) : WithBot Rank := proposal.map Proposal.rank

@[simp] theorem rankOf_none : rankOf none = ⊥ := rfl

@[simp] theorem rankOf_some (proposal : Proposal) : rankOf (some proposal) = proposal.rank := rfl

/-- A proposal whose key bounds a present key is present itself. -/
theorem exists_of_le_rankOf {rank : Rank} {proposal : Option Proposal}
    (hle : (rank : WithBot Rank) ≤ rankOf proposal) :
    ∃ bound, proposal.map Proposal.rank = some bound ∧ rank ≤ bound := by
  cases proposal with
  | none => exact absurd hle (WithBot.not_coe_le_bot rank)
  | some proposal => exact ⟨proposal.rank, rfl, WithBot.coe_le_coe.mp hle⟩

theorem Rank.priority_le {left right : Rank} (h : left ≤ right) :
    Rank.priority left ≤ Rank.priority right := by
  rcases Prod.Lex.le_iff.mp h with hlt | ⟨heq, -⟩
  · exact hlt.le
  · exact heq.le

theorem compareKey_eq_gt {α : Type*} [LinearOrder α] {left right : α} :
    compareKey left right = .gt ↔ right < left := cmp_eq_gt_iff left right

theorem compareKey_eq_eq {α : Type*} [LinearOrder α] {left right : α} :
    compareKey left right = .eq ↔ left = right := cmp_eq_eq_iff left right

theorem compareProposal_eq_gt_iff (left right : Option Proposal) :
    compareProposal left right = .gt ↔ rankOf right < rankOf left := by
  cases left with
  | none => cases right <;> simp [compareProposal]
  | some =>
    cases right with
    | none => simp [compareProposal]
    | some right =>
      simp only [compareProposal, rankOf_some, WithBot.coe_lt_coe, Ordering.then_eq_gt,
        compareKey_eq_gt, compareKey_eq_eq, Proposal.rank, Prod.Lex.toLex_lt_toLex,
        eq_comm (a := right.priority), eq_comm (a := right.proposerID)]

theorem sameProposal_iff (left right : Option Proposal) :
    sameProposal left right ↔ rankOf left = rankOf right := by
  simp only [sameProposal, decide_eq_true_eq]
  cases left with
  | none => cases right <;> simp [compareProposal]
  | some =>
    cases right with
    | none => simp [compareProposal]
    | some =>
      simp only [compareProposal, rankOf_some, WithBot.coe_inj, Ordering.then_eq_eq,
        compareKey_eq_eq, Proposal.rank, EmbeddingLike.apply_eq_iff_eq, Prod.mk.injEq]

/-- The selection keeps its start or picks a listed proposal, and bounds them all. -/
theorem foldl_maxProposal_spec (values : List (Option Proposal)) (start : Option Proposal) :
    let best := values.foldl
      (fun best value => if compareProposal value best = .gt then value else best) start
    (best = start ∨ best ∈ values) ∧ rankOf start ≤ rankOf best ∧
      ∀ value ∈ values, rankOf value ≤ rankOf best := by
  induction values generalizing start with
  | nil => simp
  | cons head tail ih =>
    obtain ⟨hmem, hstart, hbound⟩ := ih (if compareProposal head start = .gt then head else start)
    simp only [List.foldl_cons]
    by_cases hgt : compareProposal head start = .gt
    · simp only [if_pos hgt] at hmem hstart hbound ⊢
      have hlt := (compareProposal_eq_gt_iff head start).mp hgt
      refine ⟨?_, hlt.le.trans hstart, ?_⟩
      · rcases hmem with heq | hmem
        · exact .inr (List.mem_cons.mpr (.inl heq))
        · exact .inr (List.mem_cons_of_mem _ hmem)
      · rintro value hvalue
        rcases List.mem_cons.mp hvalue with rfl | hvalue
        · exact hstart
        · exact hbound value hvalue
    · simp only [if_neg hgt] at hmem hstart hbound ⊢
      have hle := le_of_not_gt (mt (compareProposal_eq_gt_iff head start).mpr hgt)
      refine ⟨hmem.imp id (List.mem_cons_of_mem _), hstart, ?_⟩
      rintro value hvalue
      rcases List.mem_cons.mp hvalue with rfl | hvalue
      · exact hle.trans hstart
      · exact hbound value hvalue

variable {values : List (Option Proposal)}

theorem maxProposal_mem {proposal : Proposal}
    (hmax : maxProposal values = some proposal) : some proposal ∈ values := by
  rcases (foldl_maxProposal_spec values none).1 with hnone | hmem
  · rw [← maxProposal, hmax] at hnone
    exact absurd hnone (Option.some_ne_none proposal)
  · rwa [← maxProposal, hmax] at hmem

theorem rankOf_le_maxProposal {value : Option Proposal}
    (hvalue : value ∈ values) : rankOf value ≤ rankOf (maxProposal values) :=
  (foldl_maxProposal_spec values none).2.2 value hvalue

theorem maxProposal_pair_eq (left right : Option Proposal) :
    maxProposal [left, right] = if compareProposal right left = .gt then right else left := by
  cases left <;> simp [maxProposal, compareProposal]

/-- The larger of two keys is the key of the selected proposal. -/
theorem rankOf_maxProposal_pair (left right : Option Proposal) :
    rankOf (maxProposal [left, right]) = max (rankOf left) (rankOf right) := by
  rw [maxProposal_pair_eq]
  by_cases hgt : compareProposal right left = .gt
  · rw [if_pos hgt, max_eq_right ((compareProposal_eq_gt_iff right left).mp hgt).le]
  · rw [if_neg hgt, max_eq_left (le_of_not_gt (mt (compareProposal_eq_gt_iff right left).mpr hgt))]

/-- The interval summary register. -/
structure ISR where
  step : ℕ
  firstCurrent : Option Proposal
  aggregateCurrent : Option Proposal
  aggregatePrior : Option Proposal
deriving DecidableEq, Repr

namespace ISR

/-- The register before its first record. -/
def empty : ISR := ⟨0, none, none, none⟩

/-- The register after an offer. Stale offers leave it unchanged. -/
def next (state : ISR) (step : ℕ) (proposal : Proposal) : ISR :=
  if step = state.step then
    { state with aggregateCurrent := maxProposal [state.aggregateCurrent, some proposal] }
  else if step > state.step then
    { step
      firstCurrent := some proposal
      aggregateCurrent := some proposal
      aggregatePrior := if step = state.step + 1 then state.aggregateCurrent else none }
  else state

/-- The register after an offer, and the summary it answers with; the recorder adds
its own identity to the summary. -/
def record (state : ISR) (step : ℕ) (proposal : Proposal) : ISR × Summary :=
  let next := state.next step proposal
  (next, ⟨[], 0, next.step, next.firstCurrent, next.aggregatePrior⟩)

/-- The proposals a register refers to. -/
def proposals (state : ISR) : List Proposal :=
  [state.firstCurrent, state.aggregateCurrent, state.aggregatePrior].reduceOption

section Steps

variable {state : ISR} {step : ℕ} {proposal : Proposal}

theorem next_of_lt (hlt : step < state.step) : state.next step proposal = state := by
  have hne : step ≠ state.step := hlt.ne
  have hgt : ¬ step > state.step := Nat.not_lt.mpr hlt.le
  simp only [next, if_neg hne, if_neg hgt]

theorem next_of_eq (heq : step = state.step) : state.next step proposal =
    { state with aggregateCurrent := maxProposal [state.aggregateCurrent, some proposal] } := by
  simp only [next, if_pos heq]

theorem next_of_gt (hgt : state.step < step) : state.next step proposal =
    { step
      firstCurrent := some proposal
      aggregateCurrent := some proposal
      aggregatePrior := if step = state.step + 1 then state.aggregateCurrent else none } := by
  have hne : step ≠ state.step := hgt.ne'
  simp only [next, if_neg hne, if_pos hgt]

theorem next_step : (state.next step proposal).step = max state.step step := by
  rcases Nat.lt_trichotomy step state.step with hlt | heq | hgt
  · rw [next_of_lt hlt, max_eq_left hlt.le]
  · rw [next_of_eq heq, heq, max_self]
  · rw [next_of_gt hgt, max_eq_right hgt.le]

end Steps

/-- What a register still shows of an answer it gave at its own step. -/
structure Remembers (state : ISR) (step : ℕ) (offer : Rank) (first prior : Option Proposal) :
    Prop where
  step_le : step ≤ state.step
  current : state.step = step → state.firstCurrent = first ∧ state.aggregatePrior = prior ∧
    (offer : WithBot Rank) ≤ rankOf state.aggregateCurrent
  following : state.step = step + 1 → (offer : WithBot Rank) ≤ rankOf state.aggregatePrior

variable {state : ISR} {step : ℕ}

/-- No later offer makes a register forget an answer. -/
theorem Remembers.next {offer : Rank} {first prior : Option Proposal}
    (hrecall : state.Remembers step offer first prior) (step' : ℕ) (proposal : Proposal) :
    (state.next step' proposal).Remembers step offer first prior := by
  have hle := hrecall.step_le
  rcases Nat.lt_trichotomy step' state.step with hlt | heq | hgt
  · rwa [next_of_lt hlt]
  · rw [next_of_eq heq]
    refine ⟨hle, ?_, hrecall.following⟩
    intro hstep
    obtain ⟨hfirst, hprior, hoffer⟩ := hrecall.current hstep
    refine ⟨hfirst, hprior, ?_⟩
    rw [rankOf_maxProposal_pair]
    exact hoffer.trans (le_max_left _ _)
  · rw [next_of_gt hgt]
    refine ⟨hle.trans hgt.le, ?_, ?_⟩
    · intro hstep
      have : step' = step := hstep
      omega
    · intro hstep
      have hstep' : step' = step + 1 := hstep
      have hnow : state.step = step := by omega
      have hnext : step' = state.step + 1 := by omega
      simp only [if_pos hnext]
      exact (hrecall.current hnow).2.2

variable {proposal : Proposal}

/-- An answer given at the offered step is remembered from the start. -/
theorem remembers_of_current
    (hnow : (state.next step proposal).step = step) :
    (state.next step proposal).Remembers step proposal.rank
      (state.next step proposal).firstCurrent (state.next step proposal).aggregatePrior := by
  refine ⟨hnow.ge, ?_, ?_⟩
  · intro _
    refine ⟨rfl, rfl, ?_⟩
    rw [next_step] at hnow
    rcases Nat.lt_or_ge state.step step with hgt | hle
    · rw [next_of_gt hgt]
      rfl
    · have heq : step = state.step := by omega
      rw [next_of_eq heq]
      change _ ≤ rankOf (maxProposal _)
      rw [rankOf_maxProposal_pair]
      exact le_max_right _ _
  · intro hstep
    omega

/-- The fields of a register come from offers made at the matching steps. -/
structure Sourced (Sent : ℕ → Rank → Prop) (state : ISR) : Prop where
  first : ∀ {proposal}, state.firstCurrent = some proposal → Sent state.step proposal.rank
  current : ∀ {proposal}, state.aggregateCurrent = some proposal → Sent state.step proposal.rank
  prior : ∀ {proposal}, state.aggregatePrior = some proposal →
    ∃ step, state.step = step + 1 ∧ Sent step proposal.rank
  nonempty : 0 < state.step → state.firstCurrent ≠ none

theorem sourced_empty (Sent : ℕ → Rank → Prop) : empty.Sourced Sent :=
  ⟨nofun, nofun, nofun, nofun⟩

variable {Sent : ℕ → Rank → Prop}

theorem Sourced.mono {Sent' : ℕ → Rank → Prop}
    (hborn : state.Sourced Sent) (hmono : ∀ {step rank}, Sent step rank → Sent' step rank) :
    state.Sourced Sent' := by
  refine ⟨fun h => hmono (hborn.first h), fun h => hmono (hborn.current h), ?_, hborn.nonempty⟩
  intro proposal h
  obtain ⟨step, hstep, hsent⟩ := hborn.prior h
  exact ⟨step, hstep, hmono hsent⟩

theorem Sourced.next (hborn : state.Sourced Sent) (hsent : Sent step proposal.rank) :
    (state.next step proposal).Sourced Sent := by
  rcases Nat.lt_trichotomy step state.step with hlt | heq | hgt
  · rwa [next_of_lt hlt]
  · rw [next_of_eq heq]
    refine ⟨hborn.first, ?_, hborn.prior, hborn.nonempty⟩
    intro chosen hchose
    have hmem := maxProposal_mem hchose
    simp only [List.mem_cons, List.not_mem_nil, or_false, Option.some.injEq] at hmem
    rcases hmem with hold | rfl
    · exact hborn.current hold.symm
    · exact heq ▸ hsent
  · rw [next_of_gt hgt]
    refine ⟨?_, ?_, ?_, fun _ => nofun⟩
    · rintro chosen ⟨⟩
      exact hsent
    · rintro chosen ⟨⟩
      exact hsent
    · intro chosen hchose
      by_cases hnext : step = state.step + 1
      · simp only [if_pos hnext] at hchose
        exact ⟨state.step, hnext, hborn.current hchose⟩
      · simp only [if_neg hnext] at hchose
        exact absurd hchose nofun

end ISR

/-- The greatest first proposal of the summaries. -/
def maxFirst (summaries : List Summary) : Option Proposal :=
  summaries.foldl (fun best summary => maxProposal [best, summary.firstCurrent]) none

/-- The greatest prior aggregate of the summaries. -/
def maxPrior (summaries : List Summary) : Option Proposal :=
  summaries.foldl (fun best summary => maxProposal [best, summary.aggregatePrior]) none

theorem foldl_maxProposal_map (field : Summary → Option Proposal) (summaries : List Summary)
    (start : Option Proposal) :
    summaries.foldl (fun best summary => maxProposal [best, field summary]) start =
      (summaries.map field).foldl
        (fun best value => if compareProposal value best = .gt then value else best) start := by
  induction summaries generalizing start with
  | nil => rfl
  | cons head tail ih => rw [List.foldl_cons, ih, List.map_cons, List.foldl_cons,
      maxProposal_pair_eq]

theorem maxFirst_eq (summaries : List Summary) :
    maxFirst summaries = maxProposal (summaries.map Summary.firstCurrent) :=
  foldl_maxProposal_map Summary.firstCurrent summaries none

theorem maxPrior_eq (summaries : List Summary) :
    maxPrior summaries = maxProposal (summaries.map Summary.aggregatePrior) :=
  foldl_maxProposal_map Summary.aggregatePrior summaries none

end Rhiza.QuePaxa
