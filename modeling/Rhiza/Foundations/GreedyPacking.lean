import Mathlib.Algebra.Ring.Nat
import Mathlib.Data.List.Basic

/-! # Greedy packing

A list is cut into groups from the left: an element joins the open group while the group fits and
opens another one where it would not. The packing can be interrupted after any element, its groups
fit if the elements do, and no grouping whose groups fit has fewer.
-/

namespace Rhiza.Foundations

/-- The groups that are closed, and the open one. -/
structure Packing (α : Type*) where
  closed : List (List α)
  current : List α

namespace Packing

variable {α : Type*} (fits : List α → Prop) [DecidablePred fits]

def empty : Packing α := ⟨[], []⟩

def push (packing : Packing α) (a : α) : Packing α :=
  if packing.current ≠ [] ∧ ¬ fits (packing.current ++ [a]) then
    ⟨packing.closed ++ [packing.current], [a]⟩
  else ⟨packing.closed, packing.current ++ [a]⟩

def groups (packing : Packing α) : List (List α) :=
  packing.closed ++ if packing.current = [] then [] else [packing.current]

/-- All that was packed. -/
def contents (packing : Packing α) : List α := packing.closed.flatten ++ packing.current

theorem flatten_groups (packing : Packing α) : packing.groups.flatten = packing.contents := by
  unfold groups contents
  split <;> simp_all

variable {fits}

theorem contents_foldl (packing : Packing α) (elements : List α) :
    (elements.foldl (push fits) packing).contents = packing.contents ++ elements := by
  induction elements generalizing packing with
  | nil => simp
  | cons a elements ih =>
    rw [List.foldl_cons, ih, List.append_cons]
    congr 1
    unfold push contents
    split <;> simp

variable (fits) in
structure Sound (packing : Packing α) : Prop where
  started : packing.current = [] → packing.closed = []
  closed : ∀ group ∈ packing.closed, group ≠ [] ∧ fits group
  current : packing.current ≠ [] → fits packing.current

variable {packing : Packing α} {elements : List α}

omit [DecidablePred fits] in
theorem sound_empty : (empty : Packing α).Sound fits :=
  ⟨fun _ => rfl, fun _ hmem => absurd hmem List.not_mem_nil, fun hne => absurd rfl hne⟩

theorem Sound.push (h : packing.Sound fits) {a : α} (ha : fits [a]) :
    (push fits packing a).Sound fits := by
  unfold Packing.push
  split
  case isTrue hfull =>
    refine ⟨by simp, ?_, fun _ => ha⟩
    intro group hmem
    rcases List.mem_append.mp hmem with hmem | hmem
    · exact h.closed group hmem
    · rw [List.mem_singleton.mp hmem]
      exact ⟨hfull.1, h.current hfull.1⟩
  case isFalse hroom =>
    refine ⟨by simp, h.closed, fun _ => ?_⟩
    by_cases hempty : packing.current = []
    · rwa [hempty]
    · exact not_not.mp fun hno => hroom ⟨hempty, hno⟩

theorem Sound.foldl (h : packing.Sound fits) (hfit : ∀ a ∈ elements, fits [a]) :
    (elements.foldl (Packing.push fits) packing).Sound fits := by
  induction elements generalizing packing with
  | nil => exact h
  | cons a elements ih =>
    rw [List.forall_mem_cons] at hfit
    exact ih (h.push hfit.1) hfit.2

omit [DecidablePred fits] in
theorem Sound.groups (h : packing.Sound fits) :
    ∀ group ∈ packing.groups, group ≠ [] ∧ fits group := by
  intro group hmem
  rcases List.mem_append.mp hmem with hmem | hmem
  · exact h.closed group hmem
  · split at hmem
    · cases hmem
    · rename_i hne
      rw [List.mem_singleton.mp hmem]
      exact ⟨hne, h.current hne⟩

/-! ## No grouping has fewer groups -/

theorem foldl_push_of_fits (hfront : ∀ {front back}, fits (front ++ back) → fits front)
    (h : fits (packing.current ++ elements)) :
    elements.foldl (Packing.push fits) packing = ⟨packing.closed, packing.current ++ elements⟩ := by
  induction elements generalizing packing with
  | nil => simp
  | cons a elements ih =>
    rw [List.append_cons] at h
    have hpush : Packing.push fits packing a = ⟨packing.closed, packing.current ++ [a]⟩ :=
      if_neg fun hfull => hfull.2 (hfront h)
    rw [List.foldl_cons, hpush, ih h, ← List.append_cons]

variable (hfront : ∀ {front back : List α}, fits (front ++ back) → fits front)
  (hback : ∀ {front back : List α}, fits (front ++ back) → fits back)

include hfront hback

/-- A list that fits is spread over at most one further group. -/
theorem length_groups_foldl (h : fits elements) :
    (elements.foldl (Packing.push fits) packing).groups.length ≤ packing.groups.length + 1 := by
  by_cases hempty : packing.current = []
  · rw [foldl_push_of_fits hfront (by rwa [hempty])]
    simp only [groups, List.length_append]
    split <;> simp
  induction elements generalizing packing with
  | nil => exact Nat.le_succ _
  | cons a elements ih =>
    rw [List.foldl_cons, Packing.push]
    split
    · -- The new group has room for the rest.
      rw [foldl_push_of_fits hfront (by simpa using h)]
      simp [groups, hempty]
    · have hrest : fits elements := @hback [a] elements h
      have hmore := @ih ⟨packing.closed, packing.current ++ [a]⟩ hrest (by simp)
      simpa [groups, hempty] using hmore

theorem length_groups_le {parts : List (List α)} (hfits : ∀ part ∈ parts, fits part) :
    (parts.flatten.foldl (Packing.push fits) packing).groups.length ≤
      packing.groups.length + parts.length := by
  induction parts generalizing packing with
  | nil => exact Nat.le_refl _
  | cons part parts ih =>
    rw [List.forall_mem_cons] at hfits
    rw [List.flatten_cons, List.foldl_append, List.length_cons]
    calc (parts.flatten.foldl (Packing.push fits)
          (part.foldl (Packing.push fits) packing)).groups.length
        ≤ (part.foldl (Packing.push fits) packing).groups.length + parts.length := ih hfits.2
      _ ≤ packing.groups.length + 1 + parts.length :=
        Nat.add_le_add_right (length_groups_foldl hfront hback hfits.1) _
      _ = packing.groups.length + (parts.length + 1) := by omega

end Packing

end Rhiza.Foundations
