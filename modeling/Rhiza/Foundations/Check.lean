import Mathlib.Logic.Basic

/-! # Sequential checks

Guards of fallible code, and the laws that turn a successful sequence of guards into
the conjunction of their conditions.
-/

namespace Rhiza.Foundations

/-- A value, or the message of the check that failed. -/
abbrev Checked (α : Type*) := Except String α

/-- Fails with the message unless the condition holds. -/
def require (condition : Prop) [Decidable condition] (message : String) : Checked Unit :=
  if condition then .ok () else .error message

@[simp] theorem require_eq_ok {condition : Prop} [Decidable condition] {message : String} :
    require condition message = .ok () ↔ condition := by
  unfold require
  split <;> simp_all

@[simp] theorem bind_eq_ok {ε α β : Type} {first : Except ε α} {next : α → Except ε β}
    {result : β} : (first >>= next) = .ok result ↔
      ∃ value, first = .ok value ∧ next value = .ok result := by
  cases first with
  | error => exact ⟨nofun, fun ⟨_, h, _⟩ => nomatch h⟩
  | ok value => exact ⟨fun h => ⟨value, rfl, h⟩, fun ⟨_, h, h'⟩ => by cases h; exact h'⟩

instance existsOk.decidable {ε α : Type} (result : Except ε α) (P : α → Prop) [DecidablePred P] :
    Decidable (∃ value, result = .ok value ∧ P value) :=
  match result with
  | .error _ => isFalse (by simp)
  | .ok value => decidable_of_iff (P value) (by simp)

/-- A guard in front of a computation adds its success to the result. -/
@[simp high] theorem seq_eq_ok {β : Type} {first : Checked Unit}
    {next : Unit → Checked β} {result : β} :
    (first >>= next) = .ok result ↔ first = .ok () ∧ next () = .ok result := by
  rw [bind_eq_ok]
  exact ⟨fun ⟨(), h⟩ => h, fun h => ⟨(), h⟩⟩

theorem ok_bind {ε α β : Type} (value : α) (next : α → Except ε β) :
    ((.ok value : Except ε α) >>= next) = next value := rfl

/-- A guard of code that tells its failures apart. -/
def ensure {ε : Type} (condition : Prop) [Decidable condition] (failure : ε) : Except ε Unit :=
  if condition then .ok () else .error failure

@[simp] theorem ensure_bind_eq_ok {ε α : Type} {condition : Prop} [Decidable condition]
    {failure : ε} {next : Unit → Except ε α} {result : α} :
    (ensure condition failure >>= next) = .ok result ↔ condition ∧ next () = .ok result := by
  by_cases h : condition
  · simp [ensure, h, ok_bind]
  · simp [ensure, h, bind, Except.bind]

/-- Runs a check on every element, stopping at the first failure. -/
def requireAll {α : Type*} (check : α → Checked Unit) : List α → Checked Unit
  | [] => .ok ()
  | head :: tail => do
    check head
    requireAll check tail

@[simp] theorem requireAll_eq_ok {α : Type*} {check : α → Checked Unit} {elements : List α} :
    requireAll check elements = .ok () ↔ ∀ element ∈ elements, check element = .ok () := by
  induction elements with
  | nil => simp [requireAll]
  | cons head tail ih => simp [requireAll, ih]

/-- Mapping and then checking every result is doing both element by element. -/
theorem mapM_requireAll {α β : Type} {f : α → Checked β} {check : β → Checked Unit}
    {elements : List α} :
    (∃ results, elements.mapM f = .ok results ∧ requireAll check results = .ok ()) ↔
      ∀ element ∈ elements, ∃ result, f element = .ok result ∧ check result = .ok () := by
  induction elements with
  | nil => simp [List.mapM_nil, pure, Except.pure]
  | cons head tail ih =>
    simp only [List.mapM_cons, bind_eq_ok, List.forall_mem_cons, ← ih]
    constructor
    · rintro ⟨results, ⟨result, hhead, rest, htail, heq⟩, hcheck⟩
      cases heq
      rw [requireAll, seq_eq_ok] at hcheck
      exact ⟨⟨result, hhead, hcheck.1⟩, rest, htail, hcheck.2⟩
    · rintro ⟨⟨result, hhead, hout⟩, rest, htail, hrest⟩
      refine ⟨_, ⟨result, hhead, rest, htail, rfl⟩, ?_⟩
      rw [requireAll, seq_eq_ok]
      exact ⟨hout, hrest⟩

@[simp] theorem toOption_eq_some {α : Type*} {result : Checked α} {value : α} :
    result.toOption = some value ↔ result = .ok value := by
  cases result <;> simp [Except.toOption]

end Rhiza.Foundations
