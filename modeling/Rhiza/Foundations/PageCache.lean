import Mathlib.Data.List.Basic

/-! # Files behind a page cache

What is written to a file waits in the cache until a flush completes. A flush that
fails may drop what it could not write: the cache then no longer knows that anything
is left to write, and a later flush of the same file may complete.
-/

namespace Rhiza.Foundations

universe u

/-- Where something that was written to a file is. -/
inductive Residence where
  /-- In the cache, to be written by the next flush. -/
  | dirty
  /-- Given up by a failed flush. -/
  | dropped
  | durable
deriving DecidableEq, Repr

/-- A completed flush writes what is dirty, and nothing else. -/
def Residence.flush : Residence → Residence
  | dirty => durable
  | dropped => dropped
  | durable => durable

/-- The writes to a file, in order. -/
structure CachedFile (α : Type u) where
  items : List (α × Residence)
deriving DecidableEq

namespace CachedFile

variable {α : Type u} (file : CachedFile α)

def empty : CachedFile α := ⟨[]⟩

def write (item : α) : CachedFile α := ⟨file.items ++ [(item, .dirty)]⟩

def flush : CachedFile α := ⟨file.items.map fun item => (item.1, item.2.flush)⟩

/-- A failed flush drops the dirty writes at the given positions. -/
def failFlush (lost : List ℕ) : CachedFile α :=
  ⟨file.items.mapIdx fun position item =>
    if item.2 = .dirty ∧ position ∈ lost then (item.1, .dropped) else item⟩

/-- What was written, wherever it is. -/
def contents : List α := file.items.map Prod.fst

/-- No failed flush has dropped a write. -/
def Intact : Prop := ∀ item ∈ file.items, item.2 ≠ .dropped

def Durable : Prop := ∀ item ∈ file.items, item.2 = .durable

instance : Decidable file.Intact := inferInstanceAs (Decidable (∀ item ∈ file.items, _))

instance : Decidable file.Durable := inferInstanceAs (Decidable (∀ item ∈ file.items, _))

@[simp] theorem contents_write (item : α) :
    (file.write item).contents = file.contents ++ [item] := by
  simp [contents, write]

@[simp] theorem contents_flush : file.flush.contents = file.contents := by
  simp [contents, flush, Function.comp_def]

@[simp] theorem contents_failFlush (lost : List ℕ) :
    (file.failFlush lost).contents = file.contents := by
  apply List.ext_getElem
  · simp [contents, failFlush]
  · intro position hleft hright
    simp only [contents, failFlush, List.getElem_map, List.getElem_mapIdx]
    split <;> rfl

theorem durable_empty : (empty : CachedFile α).Durable := by
  simp [Durable, empty]

variable {file}

/-- A completed flush makes an intact file durable. -/
theorem Intact.durable_flush (hint : file.Intact) : file.flush.Durable := by
  intro item hitem
  obtain ⟨before, hpre, rfl⟩ := List.mem_map.mp hitem
  have hkept := hint before hpre
  cases hresidence : before.2 with
  | dirty | durable => simp [Residence.flush]
  | dropped => exact absurd hresidence hkept

theorem Durable.failFlush_eq (hfix : file.Durable) (lost : List ℕ) :
    file.failFlush lost = file := by
  apply congrArg CachedFile.mk
  apply List.ext_getElem
  · simp
  · intro position hleft hright
    have hitem := hfix _ (List.getElem_mem hright)
    simp [List.getElem_mapIdx, hitem]

end CachedFile

/-- What is durable in the first list stays where it is, and durable, in the second. -/
def Keeps {α : Type u} (before after : List (α × Residence)) : Prop :=
  ∀ (position : ℕ) (item : α), before[position]? = some (item, .durable) →
    after[position]? = some (item, .durable)

namespace Keeps

variable {α : Type u} {before middle after : List (α × Residence)}

theorem refl (items : List (α × Residence)) : Keeps items items := fun _ _ hitem => hitem

theorem trans (hfirst : Keeps before middle) (htwo : Keeps middle after) : Keeps before after :=
  fun position item hitem => htwo position item (hfirst position item hitem)

theorem append_right (items extra : List (α × Residence)) : Keeps items (items ++ extra) :=
  fun _ _ hitem => List.getElem?_append_left (List.getElem?_eq_some_iff.mp hitem).1 |>.trans hitem

theorem append_left (items : List (α × Residence)) (hkeeps : Keeps before after) :
    Keeps (items ++ before) (items ++ after) := by
  intro position item hitem
  by_cases hlt : position < items.length
  · rw [List.getElem?_append_left hlt] at hitem ⊢
    exact hitem
  · have hle := Nat.le_of_not_lt hlt
    rw [List.getElem?_append_right hle] at hitem ⊢
    exact hkeeps _ item hitem

theorem map {β : Type u} (label : α → β) (hkeeps : Keeps before after) :
    Keeps (before.map fun item => (label item.1, item.2))
      (after.map fun item => (label item.1, item.2)) := by
  intro position item hitem
  rw [List.getElem?_map, Option.map_eq_some_iff] at hitem ⊢
  obtain ⟨⟨source, residence⟩, hfrom, heq⟩ := hitem
  obtain ⟨rfl, rfl⟩ := Prod.mk.inj heq
  exact ⟨_, hkeeps position source hfrom, rfl⟩

end Keeps

namespace CachedFile

variable {α : Type u} (file : CachedFile α)

theorem keeps_write (item : α) : Keeps file.items (file.write item).items :=
  Keeps.append_right _ _

theorem keeps_flush : Keeps file.items file.flush.items := by
  intro position item hitem
  simp [flush, hitem, Residence.flush]

theorem keeps_failFlush (lost : List ℕ) : Keeps file.items (file.failFlush lost).items := by
  intro position item hitem
  simp [failFlush, List.getElem?_mapIdx, hitem]

end CachedFile

end Rhiza.Foundations
