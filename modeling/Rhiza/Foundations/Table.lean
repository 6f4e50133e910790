import Mathlib.Algebra.Ring.Nat
import Mathlib.Data.List.AList

/-! # Finite tables

Association lists without duplicate keys, with the lookup laws in the conditional
form that symbolic execution of updates needs, and the restriction of a table to
the keys that satisfy a test.
-/

namespace Rhiza.Foundations

universe u v

/-- A finite map. -/
abbrev Table (κ : Type u) (α : Type v) := AList fun _ : κ => α

namespace Table

variable {κ : Type u} {α : Type v} [DecidableEq κ]

theorem lookup_insert_eq (table : Table κ α) (key key' : κ) (value : α) :
    (table.insert key value).lookup key' =
      if key' = key then some value else table.lookup key' := by
  by_cases heq : key' = key
  · subst heq
    rw [if_pos rfl, AList.lookup_insert]
  · rw [if_neg heq, AList.lookup_insert_ne heq]

theorem lookup_erase_eq (table : Table κ α) (key key' : κ) :
    (table.erase key).lookup key' = if key' = key then none else table.lookup key' := by
  by_cases heq : key' = key
  · subst heq
    rw [if_pos rfl, AList.lookup_erase]
  · rw [if_neg heq, AList.lookup_erase_ne heq]

/-- The entries whose key satisfies the test. -/
def restrict (table : Table κ α) (keep : κ → Bool) : Table κ α :=
  ⟨table.entries.filter fun entry => keep entry.1,
    table.nodupKeys.sublist List.filter_sublist⟩

omit [DecidableEq κ] in
theorem mem_entries_restrict (table : Table κ α) (keep : κ → Bool) (entry : Σ _ : κ, α) :
    entry ∈ (table.restrict keep).entries ↔ entry ∈ table.entries ∧ keep entry.1 = true :=
  List.mem_filter

theorem lookup_restrict (table : Table κ α) (keep : κ → Bool) (key : κ) :
    (table.restrict keep).lookup key = if keep key then table.lookup key else none := by
  apply Option.ext
  intro value
  rw [← Option.mem_def, AList.mem_lookup_iff, mem_entries_restrict]
  by_cases hkeep : keep key = true
  · rw [if_pos hkeep, ← AList.mem_lookup_iff, Option.mem_def]
    simp [hkeep]
  · rw [if_neg hkeep]
    simp [hkeep]

variable {table : Table κ α} {key : κ} {value : α}

theorem of_lookup_insert {key' : κ} {value' : α}
    (h : (table.insert key value).lookup key' = some value') :
    key' = key ∧ value = value' ∨ table.lookup key' = some value' := by
  rw [lookup_insert_eq] at h
  split at h
  · exact .inl ⟨‹_›, Option.some_inj.mp h⟩
  · exact .inr h

/-- Without its only entry a table is empty. -/
theorem lookup_erase_of_single (hget : table.lookup key = some value)
    (hsingle : ∀ {a b v w}, table.lookup a = some v → table.lookup b = some w → a = b) (other : κ) :
    (table.erase key).lookup other = none := by
  rw [lookup_erase_eq]
  split
  · rfl
  · rename_i hne
    cases hother : table.lookup other with
    | none => rfl
    | some => exact absurd (hsingle hother hget) hne

theorem of_lookup_erase {key' : κ} (h : (table.erase key).lookup key' = some value) :
    key' ≠ key ∧ table.lookup key' = some value := by
  rw [lookup_erase_eq] at h
  split at h
  · cases h
  · exact ⟨‹_›, h⟩

theorem lookup_restrict_some {keep : κ → Bool} :
    (table.restrict keep).lookup key = some value ↔
      table.lookup key = some value ∧ keep key = true := by
  rw [lookup_restrict]
  split <;> simp_all

theorem mem_keys_iff (table : Table κ α) (key : κ) :
    key ∈ table.keys ↔ ∃ value, table.lookup key = some value := by
  rw [← Option.isSome_iff_exists, AList.lookup_isSome, AList.mem_keys]

/-- The entries whose value satisfies the test. -/
def retain (table : Table κ α) (keep : α → Bool) : Table κ α :=
  ⟨table.entries.filter fun entry => keep entry.2,
    table.nodupKeys.sublist List.filter_sublist⟩

theorem lookup_retain (table : Table κ α) (keep : α → Bool) (key : κ) :
    (table.retain keep).lookup key = (table.lookup key).filter keep := by
  apply Option.ext
  intro value
  have hstay : value ∈ (table.retain keep).lookup key ↔
      Sigma.mk key value ∈ table.entries ∧ keep value = true := by
    rw [AList.mem_lookup_iff]
    exact List.mem_filter
  rw [← Option.mem_def, hstay, ← AList.mem_lookup_iff, Option.filter_eq_some_iff, Option.mem_def]

/-- Changes every value in place. -/
def mapValues (table : Table κ α) (change : α → α) : Table κ α :=
  ⟨table.entries.map fun entry => ⟨entry.1, change entry.2⟩, by
    have hkeys : (table.entries.map fun entry : Σ _ : κ, α => (⟨entry.1, change entry.2⟩ :
        Σ _ : κ, α)).keys = table.entries.keys := by
      simp only [List.keys, List.map_map]
      rfl
    rw [List.NodupKeys, hkeys]
    exact table.nodupKeys⟩

theorem lookup_mapValues (table : Table κ α) (change : α → α) (key : κ) :
    (table.mapValues change).lookup key = (table.lookup key).map change := by
  apply Option.ext
  intro value
  rw [← Option.mem_def, AList.mem_lookup_iff, Option.map_eq_some_iff]
  simp only [mapValues, List.mem_map]
  constructor
  · rintro ⟨⟨_, old⟩, hentry, heq⟩
    cases heq
    exact ⟨old, AList.mem_lookup_iff.mpr hentry, rfl⟩
  · rintro ⟨old, hold, rfl⟩
    exact ⟨⟨key, old⟩, AList.mem_lookup_iff.mp hold, rfl⟩

/-- The values of a table. -/
def values (table : Table κ α) : List α := table.entries.map Sigma.snd

theorem mem_values_iff (table : Table κ α) (value : α) :
    value ∈ table.values ↔ ∃ key, table.lookup key = some value := by
  simp only [values, List.mem_map]
  constructor
  · rintro ⟨⟨key, _⟩, hentry, rfl⟩
    exact ⟨key, AList.mem_lookup_iff.mpr hentry⟩
  · rintro ⟨key, hget⟩
    exact ⟨⟨key, value⟩, AList.mem_lookup_iff.mp hget, rfl⟩

theorem values_insert_of_absent (hnone : table.lookup key = none)
    (value : α) : values (table.insert key value) = value :: values table := by
  rw [values, AList.entries_insert_of_notMem (AList.lookup_eq_none.mp hnone)]
  rfl

omit [DecidableEq κ] in
theorem values_retain (table : Table κ α) (keep : α → Bool) :
    values (retain table keep) = (values table).filter keep := by
  simp only [values, retain, List.filter_map]
  rfl

theorem retain_insert_of_absent (hnone : table.lookup key = none)
    {keep : α → Bool} (hkeep : keep value = true) :
    retain (table.insert key value) keep = (retain table keep).insert key value := by
  have hnone' : (retain table keep).lookup key = none := by
    rw [lookup_retain, hnone]
    rfl
  apply AList.ext
  rw [AList.entries_insert_of_notMem (AList.lookup_eq_none.mp hnone')]
  simp only [retain, AList.entries_insert_of_notMem (AList.lookup_eq_none.mp hnone)]
  exact List.filter_cons_of_pos hkeep

end Table

end Rhiza.Foundations
