import Rhiza.QuePaxa.RunSlot

/-! # What a turn concludes

The ways in which a quorum of answers can end a turn, in terms of comparison keys:
a decision at the first step, a decision in the third phase, the next step with the
proposal its phase prescribes, or a jump to the step of an answer that is ahead.
-/

namespace Rhiza.QuePaxa

open Foundations

/-- The outcome of a turn, as a relation to its answers. -/
inductive Concludes (proposer : Proposer) (summaries : List Summary) : Outcome → Prop
  /-- Every recorder saw the same highest-priority proposal first. -/
  | fast {decision : Decision} (hstep : proposer.step = 4)
      (hpick : decision.slot = proposer.slot ∧ decision.step = 4 ∧
        decision.summaries.Perm summaries)
      (hfirst : ∀ summary ∈ summaries, summary.step = 4 ∧
        rankOf summary.firstCurrent = decision.proposal.rank)
      (hhigh : decision.proposal.priority = highestPriority) :
      Concludes proposer summaries (.decide decision)
  /-- The own proposal is the greatest prior aggregate. -/
  | phase {decision : Decision} (hphase : proposer.step % 4 = 2)
      (hpick : decision.slot = proposer.slot ∧ decision.step = proposer.step ∧
        decision.summaries.Perm summaries)
      (hprop : decision.proposal = proposer.proposal)
      (hnow : ∀ summary ∈ summaries, summary.step = proposer.step)
      (hgreatest : (∀ summary ∈ summaries,
          rankOf summary.aggregatePrior ≤ proposer.proposal.rank) ∧
        ∃ summary ∈ summaries, rankOf summary.aggregatePrior = proposer.proposal.rank) :
      Concludes proposer summaries (.decide decision)
  | spread {proposal : Proposal} (hphase : proposer.step % 4 = 0)
      (hnow : ∀ summary ∈ summaries, summary.step = proposer.step)
      (hgreatest : (∀ summary ∈ summaries, rankOf summary.firstCurrent ≤ proposal.rank) ∧
        ∃ summary ∈ summaries, rankOf summary.firstCurrent = proposal.rank) :
      Concludes proposer summaries (.advance (proposer.step + 1) proposal)
  | keep (hphase : proposer.step % 4 = 1 ∨ proposer.step % 4 = 2)
      (hnow : ∀ summary ∈ summaries, summary.step = proposer.step) :
      Concludes proposer summaries (.advance (proposer.step + 1) proposer.proposal)
  | gather {proposal : Proposal} (hphase : proposer.step % 4 = 3)
      (hnow : ∀ summary ∈ summaries, summary.step = proposer.step)
      (hgreatest : (∀ summary ∈ summaries, rankOf summary.aggregatePrior ≤ proposal.rank) ∧
        ∃ summary ∈ summaries, rankOf summary.aggregatePrior = proposal.rank) :
      Concludes proposer summaries (.advance (proposer.step + 1) proposal)
  /-- An answer was ahead. -/
  | caught {proposal : Proposal} {summary : Summary} (hmem : summary ∈ summaries)
      (hahead : proposer.step < summary.step)
      (hprop : rankOf summary.firstCurrent = proposal.rank) :
      Concludes proposer summaries (.advance summary.step proposal)

variable {codec : Codec} {proposal : Proposal} {bytes : Bytes}

theorem hydrateProposal_rank {hydrated : Proposal}
    (hfill : hydrateProposal codec proposal bytes = .ok hydrated) :
    hydrated.rank = proposal.rank := by
  unfold hydrateProposal at hfill
  split at hfill
  · cases hfill
    rfl
  · simp only [seq_eq_ok, Except.ok.injEq] at hfill
    rw [← hfill.2]
    rfl

variable {outcome : Outcome}

theorem nextStep_eq_ok {step : ℕ}
    (hnext : nextStep step proposal = .ok outcome) : outcome = .advance (step + 1) proposal := by
  simp only [nextStep, seq_eq_ok, Except.ok.injEq] at hnext
  exact hnext.2.symm

variable {summaries : List Summary}

/-- A successful fast scan found one highest-priority proposal everywhere. -/
theorem fastScan_eq_ok {fast : Bool} {start : Option Proposal}
    {first : Proposal} (hscan : fastScan summaries fast start = .ok (true, some first)) :
    fast = true ∧ (∀ proposal ∈ start, proposal = first) ∧
      (start = none → first.priority = highestPriority) ∧
      ∀ summary ∈ summaries, ∃ seen, summary.firstCurrent = some seen ∧
        seen.priority = highestPriority ∧ seen.rank = first.rank := by
  induction summaries generalizing fast start with
  | nil =>
    simp only [fastScan, Except.ok.injEq, Prod.mk.injEq] at hscan
    rw [hscan.2]
    refine ⟨hscan.1, ?_, nofun, nofun⟩
    rintro _ ⟨⟩
    rfl
  | cons summary rest ih =>
    unfold fastScan at hscan
    cases start with
    | none =>
      obtain ⟨hfast, hstart, -, hrest⟩ := ih hscan
      rw [Bool.and_eq_true, Option.any_eq_true] at hfast
      obtain ⟨hfast, seen, hseen, hhigh⟩ := hfast
      obtain rfl := hstart seen hseen
      have hhigh : seen.priority = highestPriority := of_decide_eq_true hhigh
      refine ⟨hfast, nofun, fun _ => hhigh, ?_⟩
      intro other hother
      rcases List.mem_cons.mp hother with rfl | hother
      · exact ⟨seen, hseen, hhigh, rfl⟩
      · exact hrest other hother
    | some proposal =>
      dsimp only at hscan
      split at hscan
      · cases hscan
      · rename_i hsame
        obtain ⟨hfast, hstart, -, hrest⟩ := ih hscan
        have hall := hfast
        rw [Bool.and_eq_true, Option.any_eq_true] at hfast
        obtain ⟨hfast, seen, hseen, hhigh⟩ := hfast
        refine ⟨hfast, hstart, nofun, ?_⟩
        intro other hother
        rcases List.mem_cons.mp hother with rfl | hother
        · refine ⟨seen, hseen, of_decide_eq_true hhigh, ?_⟩
          have hrank := (sameProposal_iff _ _).mp (by_contra fun h => hsame ⟨hall, h⟩)
          rw [hseen, rankOf_some, rankOf_some, WithBot.coe_inj] at hrank
          rw [← hrank, hstart proposal rfl]
        · exact hrest other hother

/-- A selected proposal has the greatest key among those of a field. -/
theorem greatest_of_maxProposal {field : Summary → Option Proposal}
    {best : Proposal} (hbest : maxProposal (summaries.map field) = some best) :
    (∀ summary ∈ summaries, rankOf (field summary) ≤ best.rank) ∧
      ∃ summary ∈ summaries, rankOf (field summary) = best.rank := by
  constructor
  · intro summary hmem
    have hle := rankOf_le_maxProposal (List.mem_map_of_mem (f := field) hmem)
    rwa [hbest, rankOf_some] at hle
  · obtain ⟨summary, hmem, hfield⟩ := List.mem_map.mp (maxProposal_mem hbest)
    exact ⟨summary, hmem, congrArg rankOf hfield⟩

section Phases

variable {codec : Codec} {proposer : Proposer} {summaries sorted : List Summary} {bytes : Bytes}
  {outcome : Outcome} {step : ℕ}

/-- The adopted proposal has the greatest key among those of the field. -/
theorem adoptBest_eq_ok {field : Summary → Option Proposal} {err : String}
    {best : Option Proposal} (hperm : sorted.Perm summaries)
    (hbest : best = maxProposal (sorted.map field))
    (hadopt : adoptBest codec step err best bytes = .ok outcome) :
    ∃ proposal, outcome = .advance (step + 1) proposal ∧
      (∀ summary ∈ summaries, rankOf (field summary) ≤ proposal.rank) ∧
        ∃ summary ∈ summaries, rankOf (field summary) = proposal.rank := by
  cases best with
  | none => cases hadopt
  | some =>
    obtain ⟨proposal, hfill, hnext⟩ := bind_eq_ok.mp hadopt
    obtain ⟨hupper, summary, hmem, hrank⟩ := greatest_of_maxProposal hbest.symm
    refine ⟨proposal, nextStep_eq_ok hnext, ?_⟩
    rw [hydrateProposal_rank hfill]
    exact ⟨fun summary hmem => hupper summary (hperm.mem_iff.mpr hmem),
      summary, hperm.mem_iff.mp hmem, hrank⟩

theorem concludeSpread_concludes (hperm : sorted.Perm summaries) (hphase : proposer.step % 4 = 0)
    (hnow : ∀ summary ∈ summaries, summary.step = proposer.step)
    (hwrap : concludeSpread codec proposer.slot proposer.step sorted bytes = .ok outcome) :
    Concludes proposer summaries outcome := by
  simp only [concludeSpread, bind_eq_ok] at hwrap
  obtain ⟨⟨fast, first⟩, hscan, hwrap⟩ := hwrap
  by_cases hfast : fast = true ∧ first.isSome
  · obtain ⟨rfl, hsome⟩ := hfast
    obtain ⟨first, rfl⟩ := Option.isSome_iff_exists.mp hsome
    obtain ⟨proposal, hfill, hdecide⟩ := bind_eq_ok.mp hwrap
    obtain ⟨hstep, -, hhigh, hseen⟩ := fastScan_eq_ok hscan
    have hfour : proposer.step = 4 := of_decide_eq_true hstep
    have hrank := hydrateProposal_rank hfill
    cases hdecide
    refine .fast hfour ⟨rfl, hfour, hperm⟩ ?_ ?_
    · intro summary hmem
      obtain ⟨seen, hfirst, -, hseen⟩ := hseen summary (hperm.mem_iff.mpr hmem)
      refine ⟨(hnow summary hmem).trans hfour, ?_⟩
      rw [hfirst, rankOf_some, hseen, hrank]
    · exact (congrArg Rank.priority hrank).trans (hhigh rfl)
  · have hslow : adoptBest codec proposer.step "empty QuePaxa proposal set" (maxFirst sorted)
        bytes = .ok outcome := by
      cases fast <;> cases first <;> first | exact hwrap | exact absurd ⟨rfl, rfl⟩ hfast
    obtain ⟨proposal, rfl, hgreatest⟩ := adoptBest_eq_ok hperm (maxFirst_eq sorted) hslow
    exact .spread hphase hnow hgreatest

theorem concludeGather_concludes (hperm : sorted.Perm summaries) (hphase : proposer.step % 4 = 3)
    (hnow : ∀ summary ∈ summaries, summary.step = proposer.step)
    (hwrap : concludeGather codec proposer.step sorted bytes = .ok outcome) :
    Concludes proposer summaries outcome := by
  obtain ⟨proposal, rfl, hgreatest⟩ := adoptBest_eq_ok hperm (maxPrior_eq sorted) hwrap
  exact .gather hphase hnow hgreatest

/-- The answer a lagging proposer follows is one of the answers ahead of it. -/
theorem caughtSummary_eq_some {caught : Summary}
    (hcaught : caughtSummary step sorted = some caught) : caught ∈ sorted ∧ step < caught.step := by
  have hfold : ∀ best ∈ caughtSummary step sorted, best ∈ sorted ∧ step < best.step := by
    unfold caughtSummary
    refine List.foldlRecOn (motive := fun caught : Option Summary =>
      ∀ best ∈ caught, best ∈ sorted ∧ step < best.step) _ _ nofun ?_
    intro caught hcaught summary hmem best hbest
    by_cases hahead : step < summary.step ∧ ∀ best ∈ caught, best.step < summary.step
    · rw [if_pos hahead] at hbest
      cases hbest
      exact ⟨hmem, hahead.1⟩
    · rw [if_neg hahead] at hbest
      exact hcaught best hbest
  exact hfold caught hcaught

theorem catchUp_concludes (hperm : sorted.Perm summaries)
    (hwrap : catchUp codec proposer.step sorted bytes = .ok outcome) :
    Concludes proposer summaries outcome := by
  unfold catchUp at hwrap
  split at hwrap
  · cases hwrap
  · rename_i caught hcaught
    obtain ⟨hmem, hahead⟩ := caughtSummary_eq_some hcaught
    split at hwrap
    · cases hwrap
    · rename_i first hfirst
      obtain ⟨proposal, hfill, hgo⟩ := bind_eq_ok.mp hwrap
      cases hgo
      refine .caught (hperm.mem_iff.mp hmem) hahead ?_
      rw [hfirst, rankOf_some, hydrateProposal_rank hfill]

end Phases

/-- Every outcome of a turn is one of the listed ones. -/
theorem conclude_concludes {proposer : Proposer}
    (hwrap : conclude codec proposer summaries bytes = .ok outcome) :
    Concludes proposer summaries outcome := by
  have hperm : (sortSummaries summaries).Perm summaries := List.perm_insertionSort _ summaries
  unfold conclude concludeSorted at hwrap
  split at hwrap
  · rename_i hall
    have hnow : ∀ summary ∈ summaries, summary.step = proposer.step := by
      intro summary hmem
      exact of_decide_eq_true (List.all_eq_true.mp hall summary (hperm.mem_iff.mpr hmem))
    split at hwrap
    · rename_i hphase
      exact concludeSpread_concludes hperm hphase hnow hwrap
    · rename_i hphase
      obtain rfl := nextStep_eq_ok hwrap
      exact .keep (.inl hphase) hnow
    · rename_i hphase
      split at hwrap
      · rename_i hsame
        cases hwrap
        rw [sameProposal_iff, rankOf_some, maxPrior_eq] at hsame
        obtain ⟨best, hbest⟩ : ∃ best,
            maxProposal ((sortSummaries summaries).map Summary.aggregatePrior) = some best := by
          cases hmax : maxProposal ((sortSummaries summaries).map Summary.aggregatePrior) with
          | none => exact absurd (hsame.trans (congrArg rankOf hmax)) (WithBot.coe_ne_bot)
          | some best => exact ⟨best, rfl⟩
        obtain ⟨hupper, summary, hmem, hrank⟩ := greatest_of_maxProposal hbest
        rw [hbest, rankOf_some] at hsame
        refine .phase hphase ⟨rfl, rfl, hperm⟩ rfl hnow ⟨?_, summary,
          hperm.mem_iff.mp hmem, hrank.trans hsame.symm⟩
        intro summary hmem
        exact hsame ▸ hupper summary (hperm.mem_iff.mpr hmem)
      · obtain rfl := nextStep_eq_ok hwrap
        exact .keep (.inr hphase) hnow
    · rename_i hspread hkeep hphase
      have hlast : proposer.step % 4 = 3 := by
        have h0 : proposer.step % 4 ≠ 0 := hspread
        have h1 : proposer.step % 4 ≠ 1 := hkeep
        have h2 : proposer.step % 4 ≠ 2 := hphase
        omega
      exact concludeGather_concludes hperm hlast hnow hwrap
  · exact catchUp_concludes hperm hwrap

end Rhiza.QuePaxa
