import Mathlib.Data.List.Basic

/-! # Programs that may fail or crash at every step

A program acts on a state by single actions. Each action is done, fails, or is not survived by the
program; one that is not atomic may be torn in the last two cases, with a part of its effect left
behind. Triples say what holds when the program returns and what holds when it crashes.
-/

namespace Rhiza.Foundations

universe u

/-- What becomes of an action. -/
inductive Outcome where
  | done
  | failed (torn : Bool)
  | crashed (torn : Bool)

/-- The state, and what becomes of the actions to come. When the list is exhausted, all of them
are done. -/
structure World (σ : Type u) where
  state : σ
  outcomes : List Outcome

/-- A program returns a value or crashes. -/
def Prog (σ : Type u) (α : Type) := World σ → Option α × World σ

namespace Prog

variable {σ : Type u} {α β : Type}

instance : Monad (Prog σ) where
  pure value := fun world => (some value, world)
  bind program next := fun world =>
    match program world with
    | (some value, world) => next value world
    | (none, world) => (none, world)

/-- One action, with its answer if it is done and if it fails, and what it leaves when torn. -/
def act (effect : σ → α × σ) (failure : α) (tear : σ → σ) : Prog σ α := fun world =>
  let rest := world.outcomes.tail
  match world.outcomes.headD .done with
  | .done => (some (effect world.state).1, ⟨(effect world.state).2, rest⟩)
  | .failed torn => (some failure, ⟨if torn then tear world.state else world.state, rest⟩)
  | .crashed torn => (none, ⟨if torn then tear world.state else world.state, rest⟩)

/-- An action that is done as a whole or not at all. -/
def atomic (effect : σ → α × σ) (failure : α) : Prog σ α := act effect failure id

/-- Whenever the precondition holds, the program returns with the postcondition or crashes with
the last condition. -/
def Triple (before : σ → Prop) (program : Prog σ α) (after : α → σ → Prop) (crash : σ → Prop) :
    Prop :=
  ∀ world, before world.state →
    match program world with
    | (some value, world) => after value world.state
    | (none, world) => crash world.state

variable {before before' crash : σ → Prop} {program : Prog σ α} {after after' : α → σ → Prop}
  {value failure : α} {world : World σ} {effect : σ → α × σ}

theorem triple_pure (h : ∀ state, before state → after value state) :
    Triple before (pure value) after crash :=
  fun world hpre => h world.state hpre

theorem Triple.bind {next : α → Prog σ β} {final : β → σ → Prop}
    (hprogram : Triple before program after crash)
    (hnext : ∀ value, Triple (after value) (next value) final crash) :
    Triple before (program >>= next) final crash := by
  intro world hpre
  have hfirst := hprogram world hpre
  change match (match program world with
    | (some value, world) => next value world
    | (none, world) => (none, world)) with
    | (some value, world) => final value world.state
    | (none, world) => crash world.state
  cases hrun : program world with
  | mk result world' =>
    rw [hrun] at hfirst
    cases result with
    | none => exact hfirst
    | some value => exact hnext value world' hfirst

theorem Triple.pre (hprogram : Triple before program after crash)
    (hpre : ∀ state, before' state → before state) : Triple before' program after crash :=
  fun world hworld => hprogram world (hpre _ hworld)

theorem Triple.imp {crash' : σ → Prop} (hprogram : Triple before program after crash)
    (hafter : ∀ value state, after value state → after' value state)
    (hcrash : ∀ state, crash state → crash' state) : Triple before program after' crash' := by
  intro world hworld
  have hrun := hprogram world hworld
  cases hprog : program world with
  | mk result world' =>
    rw [hprog] at hrun
    cases result with
    | none => exact hcrash world'.state hrun
    | some value => exact hafter value world'.state hrun

theorem Triple.post (hprogram : Triple before program after crash)
    (hafter : ∀ value state, after value state → after' value state) :
    Triple before program after' crash :=
  hprogram.imp hafter fun _ h => h

/-- A fact that does not depend on the state may be used throughout. -/
theorem triple_of_fact {fact : Prop} (h : fact → Triple before program after crash) :
    Triple (fun state => before state ∧ fact) program after crash :=
  fun world hworld => h hworld.2 world hworld.1

/-- What holds after a crash and follows from the postcondition holds of the state that is left. -/
theorem Triple.leaves (hprogram : Triple before program after crash)
    (hafter : ∀ value state, after value state → crash state)
    (hworld : before world.state) : crash (program world).2.state := by
  have hrun := hprogram world hworld
  cases hprog : program world with
  | mk result world' =>
    rw [hprog] at hrun
    cases result with
    | none => exact hrun
    | some value => exact hafter value world'.state hrun

theorem Triple.returns (hprogram : Triple before program after crash)
    (hworld : before world.state) (hvalue : (program world).1 = some value) :
    after value (program world).2.state := by
  have hrun := hprogram world hworld
  cases hprog : program world with
  | mk =>
    rw [hprog] at hrun hvalue
    cases hvalue
    exact hrun

theorem triple_act {tear : σ → σ}
    (hdone : ∀ state, before state → after (effect state).1 (effect state).2)
    (hfail : ∀ state, before state → after failure state ∧ after failure (tear state))
    (hcrashed : ∀ state, before state → crash state ∧ crash (tear state)) :
    Triple before (act effect failure tear) after crash := by
  intro world hpre
  unfold act
  cases world.outcomes.headD .done with
  | done => exact hdone world.state hpre
  | failed torn =>
    cases torn with
    | false => exact (hfail world.state hpre).1
    | true => exact (hfail world.state hpre).2
  | crashed torn =>
    cases torn with
    | false => exact (hcrashed world.state hpre).1
    | true => exact (hcrashed world.state hpre).2

theorem triple_atomic
    (hdone : ∀ state, before state → after (effect state).1 (effect state).2)
    (hfail : ∀ state, before state → after failure state)
    (hcrashed : ∀ state, before state → crash state) :
    Triple before (atomic effect failure) after crash :=
  triple_act hdone (fun state hpre => ⟨hfail state hpre, hfail state hpre⟩)
    fun state hpre => ⟨hcrashed state hpre, hcrashed state hpre⟩

end Prog

end Rhiza.Foundations
