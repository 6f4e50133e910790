import Mathlib.Data.List.Basic

/-! # Runs of a partial transition system

A transition system whose steps may be refused. A guard restricts which steps a run
may take from which states; what every guarded step preserves holds at the end of
every guarded run.
-/

namespace Rhiza.Foundations

universe u v

variable {σ : Type u} {ε : Type v} (step : σ → ε → Option σ)

/-- The state after a list of events, if every one of them is a step. -/
def runFrom : σ → List ε → Option σ
  | state, [] => some state
  | state, event :: rest => (step state event).bind fun next => runFrom next rest

/-- Every event of the run meets the guard in the state it is taken from. -/
def Guarded (guard : σ → ε → Prop) : σ → List ε → Prop
  | _, [] => True
  | state, event :: rest => guard state event ∧ ∀ next ∈ step state event, Guarded guard next rest

instance Guarded.decidable (guard : σ → ε → Prop) [∀ state event, Decidable (guard state event)] :
    ∀ state events, Decidable (Guarded step guard state events)
  | _, [] => isTrue trivial
  | state, event :: rest =>
    match hnext : step state event with
    | none => decidable_of_iff (guard state event) (by simp [Guarded, hnext])
    | some next =>
      haveI := Guarded.decidable guard next rest
      decidable_of_iff (guard state event ∧ Guarded step guard next rest)
        (by simp [Guarded, hnext])

variable {step}

@[simp] theorem runFrom_nil (state : σ) : runFrom step state [] = some state := rfl

theorem runFrom_cons {state final : σ} {event : ε} {rest : List ε} :
    runFrom step state (event :: rest) = some final ↔
      ∃ next, step state event = some next ∧ runFrom step next rest = some final :=
  Option.bind_eq_some_iff

theorem runFrom_append {state final : σ} {front back : List ε} :
    runFrom step state (front ++ back) = some final ↔
      ∃ middle, runFrom step state front = some middle ∧ runFrom step middle back = some final := by
  induction front generalizing state with
  | nil => simp
  | cons event rest ih =>
    rw [List.cons_append, runFrom_cons]
    constructor
    · rintro ⟨next, hstep, hrest⟩
      obtain ⟨middle, hfront, hback⟩ := ih.mp hrest
      exact ⟨middle, runFrom_cons.mpr ⟨next, hstep, hfront⟩, hback⟩
    · rintro ⟨middle, hfront, hback⟩
      obtain ⟨next, hstep, hfront⟩ := runFrom_cons.mp hfront
      exact ⟨next, hstep, ih.mpr ⟨middle, hfront, hback⟩⟩

/-- A guarded run is a guarded run followed by another one. -/
theorem guarded_append {guard : σ → ε → Prop} {state middle : σ} {front back : List ε}
    (hrun : runFrom step state front = some middle) :
    Guarded step guard state (front ++ back) ↔
      Guarded step guard state front ∧ Guarded step guard middle back := by
  induction front generalizing state with
  | nil =>
    cases hrun
    simp [Guarded]
  | cons event rest ih =>
    obtain ⟨next, hnext, hrest⟩ := runFrom_cons.mp hrun
    simp only [List.cons_append, Guarded, hnext, Option.mem_def, Option.some_inj,
      forall_eq', ih hrest, and_assoc]

/-- A guard that only looks at the events is met when all of them meet it. -/
theorem guarded_of_forall {allowed : ε → Prop} {events : List ε}
    (hallow : ∀ event ∈ events, allowed event) (state : σ) :
    Guarded step (fun _ event => allowed event) state events := by
  induction events generalizing state with
  | nil => exact trivial
  | cons event rest ih =>
    exact ⟨hallow event List.mem_cons_self,
      fun next _ => ih (fun event hmem => hallow event (List.mem_cons_of_mem _ hmem)) next⟩

theorem Guarded.imp {guard guard' : σ → ε → Prop}
    (himp : ∀ state event, guard state event → guard' state event) {state : σ} {events : List ε}
    (hguard : Guarded step guard state events) : Guarded step guard' state events := by
  induction events generalizing state with
  | nil => exact trivial
  | cons event rest ih =>
    exact ⟨himp state event hguard.1, fun next hnext => ih (hguard.2 next hnext)⟩

/-- A predicate that every guarded step preserves is preserved by guarded runs. -/
theorem Guarded.invariant {guard : σ → ε → Prop} {invariant : σ → Prop}
    (hstep : ∀ {state event next}, invariant state → guard state event →
      step state event = some next → invariant next)
    {state final : σ} {events : List ε} (hguard : Guarded step guard state events)
    (hrun : runFrom step state events = some final) (hstate : invariant state) :
    invariant final := by
  induction events generalizing state with
  | nil =>
    cases hrun
    exact hstate
  | cons event rest ih =>
    obtain ⟨next, hnext, hrest⟩ := runFrom_cons.mp hrun
    exact ih (hguard.2 next hnext) hrest (hstep hstate hguard.1 hnext)

/-- What a step keeps exactly when it meets the guard holds after exactly the guarded
runs. -/
theorem guarded_iff {guard : σ → ε → Prop} {invariant holds : σ → Prop}
    (hstep : ∀ {state event next}, invariant state → step state event = some next →
      invariant next ∧ (holds next ↔ holds state ∧ guard state event))
    {state final : σ} {events : List ε} (hrun : runFrom step state events = some final)
    (hstate : invariant state) :
    holds final ↔ holds state ∧ Guarded step guard state events := by
  induction events generalizing state with
  | nil =>
    cases hrun
    simp [Guarded]
  | cons event rest ih =>
    obtain ⟨next, hnext, hrest⟩ := runFrom_cons.mp hrun
    obtain ⟨hkept, hholds⟩ := hstep hstate hnext
    rw [ih hrest hkept, hholds, Guarded, and_assoc]
    simp [hnext]

end Rhiza.Foundations
