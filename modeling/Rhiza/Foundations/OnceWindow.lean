import Mathlib.Data.List.Pairwise
import Mathlib.Data.Nat.Basic
import Mathlib.Data.Option.Basic
import Mathlib.Order.Basic

/-! # Requests that take effect once within a window

Requests carry a key and arrive in numbered slots. A request takes effect unless its key is
recorded, and is recorded with the slot in which it takes effect; records that are a window of
slots old are forgotten before the requests of a slot arrive.
-/

namespace Rhiza.Foundations

universe u

/-- What is recorded of each key, and the effects there were so far, oldest first. -/
structure OnceLog (κ : Type u) where
  recorded : κ → Option ℕ
  effects : List (ℕ × κ)

namespace OnceLog

variable {κ : Type u} {recorded : ℕ}

@[ext] theorem ext {log log' : OnceLog κ} (hrec : ∀ key, log.recorded key = log'.recorded key)
    (heffects : log.effects = log'.effects) : log = log' := by
  obtain ⟨recorded, effects⟩ := log
  obtain rfl : recorded = log'.recorded := funext hrec
  obtain rfl : effects = log'.effects := heffects
  rfl

/-- Nothing happened yet. -/
def empty : OnceLog κ := ⟨fun _ => none, []⟩

/-- The first slot whose records are not forgotten. -/
def floor (window slot : ℕ) : ℕ := if slot ≤ window then 0 else slot - window + 1

theorem floor_le {window slot : ℕ} (hpos : 0 < recorded) :
    floor window slot ≤ recorded ↔ slot < recorded + window := by
  unfold floor
  split <;> omega

def expire (window slot : ℕ) (log : OnceLog κ) : OnceLog κ :=
  { log with recorded := fun key => (log.recorded key).filter (floor window slot ≤ ·) }

/-- A request with the key arrives. -/
def visit [DecidableEq κ] (slot : ℕ) (log : OnceLog κ) (key : κ) : OnceLog κ :=
  if (log.recorded key).isSome then log
  else ⟨Function.update log.recorded key (some slot), log.effects ++ [(slot, key)]⟩

/-- The requests of a slot arrive. -/
def visitAll [DecidableEq κ] (slot : ℕ) (log : OnceLog κ) (keys : List κ) : OnceLog κ :=
  keys.foldl (visit slot) log

/-! ## Effects within a slot -/

/-- The records and the effects up to a slot belong together. -/
structure Once (window slot : ℕ) (log : OnceLog κ) : Prop where
  live : ∀ effect ∈ log.effects, slot < effect.1 + window →
    log.recorded effect.2 = some effect.1
  traced : ∀ key recorded, log.recorded key = some recorded → (recorded, key) ∈ log.effects
  positive : ∀ effect ∈ log.effects, 0 < effect.1
  late : ∀ effect ∈ log.effects, effect.1 ≤ slot
  /-- Two effects of a key are a window apart. -/
  apart : log.effects.Pairwise fun earlier later =>
    earlier.2 = later.2 → earlier.1 + window ≤ later.1

/-- No record is due to be forgotten. -/
def Current (window slot : ℕ) (log : OnceLog κ) : Prop :=
  ∀ key recorded, log.recorded key = some recorded → slot < recorded + window

variable {window slot : ℕ} {log : OnceLog κ}

theorem Once.later {later : ℕ} (honce : log.Once window slot) (hle : slot ≤ later) :
    log.Once window later :=
  { honce with
    live := fun effect hmem hlive => honce.live effect hmem (by omega)
    late := fun effect hmem => (honce.late effect hmem).trans hle }

theorem Once.expire (honce : log.Once window slot) : (log.expire window slot).Once window slot where
  live effect hmem hlive := by
    simp only [OnceLog.expire, honce.live effect hmem hlive]
    exact Option.filter_some_pos (decide_eq_true
      ((floor_le (honce.positive effect hmem)).mpr hlive))
  traced key recorded hrec := honce.traced key recorded (Option.filter_eq_some_iff.mp hrec).1
  positive := honce.positive
  late := honce.late
  apart := honce.apart

theorem Once.current_expire (honce : log.Once window slot) :
    (log.expire window slot).Current window slot := by
  intro key recorded hrec
  obtain ⟨hold, hfloor⟩ := Option.filter_eq_some_iff.mp hrec
  exact (floor_le (honce.positive _ (honce.traced key recorded hold))).mp (of_decide_eq_true hfloor)

variable [DecidableEq κ] {key : κ}

theorem visit_of_some (h : log.recorded key = some recorded) : log.visit slot key = log := by
  rw [visit, h]
  exact if_pos rfl

theorem visit_of_none (h : log.recorded key = none) :
    log.visit slot key =
      ⟨Function.update log.recorded key (some slot), log.effects ++ [(slot, key)]⟩ := by
  rw [visit, h]
  exact if_neg nofun

/-- An effect that is still recorded excludes another one, so a new effect is a window later
than all earlier ones of its key. -/
theorem Once.visit (honce : log.Once window slot) (hpos : 0 < slot) (key : κ) :
    (log.visit slot key).Once window slot := by
  cases hrec : log.recorded key with
  | some =>
    rw [visit_of_some hrec]
    exact honce
  | none =>
    rw [visit_of_none hrec]
    have hold : ∀ effect ∈ log.effects, effect.2 = key → effect.1 + window ≤ slot := by
      rintro effect hmem rfl
      by_contra hlive
      have hsome := honce.live effect hmem (by omega)
      rw [hrec] at hsome
      cases hsome
    refine ⟨?_, ?_, ?_, ?_, ?_⟩
    · intro effect hmem hlive
      simp only [List.mem_append, List.mem_singleton] at hmem
      obtain hmem | rfl := hmem
      · have hne : effect.2 ≠ key := by
          intro heq
          have := hold effect hmem heq
          omega
        exact (Function.update_of_ne hne ..).trans (honce.live effect hmem hlive)
      · exact Function.update_self ..
    · intro other recorded hother
      simp only [Function.update_apply] at hother
      split at hother
      · rename_i heq
        cases hother
        rw [heq]
        exact List.mem_append_right _ (List.mem_singleton.mpr rfl)
      · exact List.mem_append_left _ (honce.traced other recorded hother)
    · intro effect hmem
      simp only [List.mem_append, List.mem_singleton] at hmem
      obtain hmem | rfl := hmem
      · exact honce.positive effect hmem
      · exact hpos
    · intro effect hmem
      simp only [List.mem_append, List.mem_singleton] at hmem
      obtain hmem | rfl := hmem
      · exact honce.late effect hmem
      · exact le_rfl
    · apply List.pairwise_append.mpr
      refine ⟨honce.apart, List.pairwise_singleton .., ?_⟩
      intro effect hmem new hnew heq
      obtain rfl := List.mem_singleton.mp hnew
      exact hold effect hmem heq

theorem Current.visit (hnow : log.Current window slot) (hwin : 0 < window) (key : κ) :
    (log.visit slot key).Current window slot := by
  cases hrec : log.recorded key with
  | some =>
    rw [visit_of_some hrec]
    exact hnow
  | none =>
    rw [visit_of_none hrec]
    intro other recorded hother
    simp only [Function.update_apply] at hother
    split at hother
    · cases hother
      omega
    · exact hnow other recorded hother

theorem recorded_visit (key : κ) {other : κ} (h : log.recorded other = some recorded) :
    (log.visit slot key).recorded other = some recorded := by
  cases hkey : log.recorded key with
  | some =>
    rw [visit_of_some hkey]
    exact h
  | none =>
    rw [visit_of_none hkey]
    have hne : other ≠ key := by
      rintro rfl
      rw [hkey] at h
      cases h
    exact (Function.update_of_ne hne ..).trans h

theorem recorded_visit_self (slot : ℕ) (log : OnceLog κ) (key : κ) :
    ((log.visit slot key).recorded key).isSome := by
  cases hkey : log.recorded key with
  | some =>
    rw [visit_of_some hkey, hkey]
    rfl
  | none =>
    rw [visit_of_none hkey]
    simp

theorem effects_visit (slot : ℕ) (log : OnceLog κ) (key : κ) :
    (log.visit slot key).effects = log.effects ∨
      (log.visit slot key).effects = log.effects ++ [(slot, key)] := by
  unfold visit
  split
  · exact .inl rfl
  · exact .inr rfl

/-! ## Whole slots -/

/-- What the requests of a slot leave: all of their keys are recorded, and the effects are those
before and some of the requests'. -/
structure Visited (window slot : ℕ) (keys : List κ) (log log' : OnceLog κ) : Prop where
  once : log'.Once window slot
  current : log'.Current window slot
  kept : ∀ key recorded, log.recorded key = some recorded → log'.recorded key = some recorded
  recorded : ∀ key ∈ keys, (log'.recorded key).isSome
  effects : ∀ effect ∈ log'.effects, effect ∈ log.effects ∨ effect.1 = slot ∧ effect.2 ∈ keys
  old : ∀ effect ∈ log.effects, effect ∈ log'.effects

theorem Once.visitAll (honce : log.Once window slot) (hnow : log.Current window slot)
    (hpos : 0 < slot) (hwin : 0 < window) (keys : List κ) :
    Visited window slot keys log (log.visitAll slot keys) := by
  induction keys generalizing log with
  | nil => exact ⟨honce, hnow, fun _ _ => id, nofun, fun _ => .inl, fun _ => id⟩
  | cons key rest ih =>
    have hrest := ih (honce.visit hpos key) (hnow.visit hwin key)
    refine ⟨hrest.once, hrest.current, ?_, ?_, ?_, ?_⟩
    · intro other recorded hother
      exact hrest.kept other recorded (recorded_visit key hother)
    · intro other hmem
      obtain rfl | hother := List.mem_cons.mp hmem
      · obtain ⟨recorded, hself⟩ := Option.isSome_iff_exists.mp (recorded_visit_self slot log other)
        exact Option.isSome_of_eq_some (hrest.kept other recorded hself)
      · exact hrest.recorded other hother
    · intro effect hmem
      obtain hold | ⟨hslot, hkey⟩ := hrest.effects effect hmem
      · obtain hsame | hmore := effects_visit slot log key
        · exact .inl (hsame ▸ hold)
        · rw [hmore] at hold
          simp only [List.mem_append, List.mem_singleton] at hold
          obtain hold | rfl := hold
          · exact .inl hold
          · exact .inr ⟨rfl, List.mem_cons_self⟩
      · exact .inr ⟨hslot, List.mem_cons_of_mem _ hkey⟩
    · intro effect hmem
      apply hrest.old
      obtain hsame | hmore := effects_visit slot log key
      · rw [hsame]
        exact hmem
      · rw [hmore]
        exact List.mem_append_left _ hmem

/-! ## Histories -/

/-- The slots up to the given one have passed, with the given requests. -/
structure Passed (window : ℕ) (requests : ℕ → List κ) (slot : ℕ) (log : OnceLog κ) : Prop where
  once : log.Once window slot
  asked : ∀ effect ∈ log.effects, effect.2 ∈ requests effect.1
  /-- Each request finds an effect of its key within the window before it. -/
  covered : ∀ time, 0 < time → time ≤ slot → ∀ key ∈ requests time,
    ∃ recorded, (recorded, key) ∈ log.effects ∧ recorded ≤ time ∧ time < recorded + window

omit [DecidableEq κ] in
theorem passed_empty (window : ℕ) (requests : ℕ → List κ) :
    Passed window requests 0 (empty : OnceLog κ) where
  once := ⟨nofun, nofun, nofun, nofun, .nil⟩
  asked := nofun
  covered time hpos hle := absurd hpos (by omega)

variable {requests : ℕ → List κ}

omit [DecidableEq κ] in
/-- A slot without requests, in which nothing is forgotten. -/
theorem Passed.skip (hpass : log.Passed window requests slot)
    (hnone : requests (slot + 1) = []) : log.Passed window requests (slot + 1) where
  once := hpass.once.later (Nat.le_succ slot)
  asked := hpass.asked
  covered time hpos hle key hkey := by
    obtain rfl | hlt := Nat.eq_or_lt_of_le hle
    · rw [hnone] at hkey
      cases hkey
    · exact hpass.covered time hpos (Nat.le_of_lt_succ hlt) key hkey

theorem Passed.next (hpass : log.Passed window requests slot) (hwin : 0 < window) :
    ((log.expire window (slot + 1)).visitAll (slot + 1) (requests (slot + 1))).Passed window
      requests (slot + 1) := by
  have honce := hpass.once.later (Nat.le_succ slot)
  have hseen := honce.expire.visitAll honce.current_expire (Nat.succ_pos slot) hwin
    (requests (slot + 1))
  refine ⟨hseen.once, ?_, ?_⟩
  · intro effect hmem
    obtain hold | ⟨hslot, hkey⟩ := hseen.effects effect hmem
    · exact hpass.asked effect hold
    · rw [hslot]
      exact hkey
  · intro time hpos hle key hkey
    obtain rfl | hlt := Nat.eq_or_lt_of_le hle
    · obtain ⟨recorded, hrec⟩ := Option.isSome_iff_exists.mp (hseen.recorded key hkey)
      have hmem := hseen.once.traced key recorded hrec
      exact ⟨recorded, hmem, hseen.once.late _ hmem, hseen.current key recorded hrec⟩
    · obtain ⟨recorded, hmem, hbounds⟩ :=
        hpass.covered time hpos (Nat.le_of_lt_succ hlt) key hkey
      exact ⟨recorded, hseen.old _ hmem, hbounds⟩

omit [DecidableEq κ] in
/-- Between an effect and the end of its window there is no other one. -/
theorem Once.eq_of_near {first second : ℕ} (honce : log.Once window slot)
    (hfirst : (first, key) ∈ log.effects) (htwo : (second, key) ∈ log.effects)
    (hle : first ≤ second) (hnear : second < first + window) : second = first := by
  obtain heq | hlt := Nat.eq_or_lt_of_le hle
  · exact heq.symm
  exfalso
  have hsymm : Std.Symm fun a b : ℕ × κ =>
      a.2 = b.2 → a.1 + window ≤ b.1 ∨ b.1 + window ≤ a.1 :=
    ⟨fun a b h heq => (h heq.symm).symm⟩
  have hapart : log.effects.Pairwise fun a b =>
      a.2 = b.2 → a.1 + window ≤ b.1 ∨ b.1 + window ≤ a.1 :=
    honce.apart.imp fun h heq => .inl (h heq)
  have := hapart.forall hfirst htwo (by simp; omega) rfl
  omega

omit [DecidableEq κ] in
/-- The first request of a key after the window of an effect takes effect again. -/
theorem Passed.again {first time : ℕ}
    (hpass : log.Passed window requests slot) (hfirst : (first, key) ∈ log.effects)
    (hlate : first + window ≤ time) (hle : time ≤ slot) (hkey : key ∈ requests time)
    (hnone : ∀ between, first + window ≤ between → between < time → key ∉ requests between) :
    (time, key) ∈ log.effects := by
  have hpos : 0 < time := by
    have := hpass.once.positive _ hfirst
    simp only at this
    omega
  obtain ⟨second, htwo, hpre, hafter⟩ := hpass.covered time hpos hle key hkey
  have hapart : first + window ≤ second := by
    by_contra hnear
    have := hpass.once.eq_of_near hfirst htwo (by omega) (by omega)
    omega
  obtain rfl | hlt := Nat.eq_or_lt_of_le hpre
  · exact htwo
  · exact absurd (hpass.asked _ htwo) (hnone second hapart hlt)

end OnceLog

end Rhiza.Foundations
