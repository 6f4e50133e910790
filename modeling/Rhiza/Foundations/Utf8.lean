import Mathlib.Data.List.Basic

/-! # Byte strings and their UTF-8 units

A byte string is read as a sequence of units: a well-formed character, or a single byte
that begins none. Replacing each byte of the second kind by the replacement character
gives the nearest well-formed string. The decoder of one character is the core library's.
-/

namespace Rhiza.Foundations

abbrev ByteString := List UInt8

instance : LawfulBEq ByteString := inferInstance

namespace Utf8

/-- The character that stands for a byte no character begins with. -/
def replacement : Char := Char.ofNat 0xFFFD

/-- The character at the head of a byte string. -/
def decodeChar? (s : ByteString) : Option Char := s.toByteArray.utf8DecodeChar? 0

theorem decodeChar?_encode_append (c : Char) (s : ByteString) :
    decodeChar? (String.utf8EncodeChar c ++ s) = some c := by
  simp [decodeChar?, List.toByteArray_append, ByteArray.utf8DecodeChar?_utf8EncodeChar_append]

variable {s : ByteString} {c : Char}

theorem eq_encode_append_of_decodeChar? (h : decodeChar? s = some c) :
    ∃ rest, s = String.utf8EncodeChar c ++ rest := by
  obtain ⟨l, hl⟩ := ByteArray.exists_of_utf8DecodeChar?_eq_some h
  refine ⟨l.data.toList, List.toByteArray_inj.mp ?_⟩
  rw [hl, List.toByteArray_append]
  congr 1
  apply ByteArray.ext
  simp [List.data_toByteArray]

variable {b : UInt8}

/-- An ASCII byte is a character. -/
theorem encode_ascii (hb : b < 128) : String.utf8EncodeChar (Char.ofNat b.toNat) = [b] := by
  have hall : ∀ n : Fin 128, String.utf8EncodeChar (Char.ofNat n) = [UInt8.ofNat n] := by
    decide
  rw [UInt8.lt_iff_toNat_lt] at hb
  simpa using hall ⟨b.toNat, hb⟩

/-- Only a byte outside ASCII can fail to begin a character. -/
theorem high_of_decodeChar?_eq_none (h : decodeChar? (b :: s) = none) : 128 ≤ b := by
  by_contra hlow
  have hascii := decodeChar?_encode_append (Char.ofNat b.toNat) s
  rw [encode_ascii (UInt8.not_le.mp hlow), List.singleton_append, h] at hascii
  exact absurd hascii nofun

/-- The bytes of a character outside ASCII are outside ASCII. -/
theorem encode_high (hc : 127 < c.val.toNat) : ∀ b ∈ String.utf8EncodeChar c, 128 ≤ b := by
  intro b hb
  have hwide : ∀ n, 128 ≤ n → n < 256 → (128 : UInt8) ≤ UInt8.ofNat n := by
    intro n hlow hhigh
    rw [UInt8.le_iff_toNat_le, UInt8.toNat_ofNat_of_lt' hhigh]
    exact hlow
  simp only [String.utf8EncodeChar, Nat.not_le.mpr hc, if_false] at hb
  split at hb
  · simp only [List.mem_cons, List.not_mem_nil, or_false] at hb
    rcases hb with rfl | rfl <;> exact hwide _ (by omega) (by omega)
  · split at hb
    · simp only [List.mem_cons, List.not_mem_nil, or_false] at hb
      rcases hb with rfl | rfl | rfl <;> exact hwide _ (by omega) (by omega)
    · simp only [List.mem_cons, List.not_mem_nil, or_false] at hb
      rcases hb with rfl | rfl | rfl | rfl <;> exact hwide _ (by omega) (by omega)

/-- The units of a byte string, the first `skip` bytes aside. -/
def unitsFrom : ℕ → ByteString → List (Option Char)
  | _, [] => []
  | skip + 1, _ :: s => unitsFrom skip s
  | 0, b :: s =>
    match decodeChar? (b :: s) with
    | some c => some c :: unitsFrom (c.utf8Size - 1) s
    | none => none :: unitsFrom 0 s

/-- The units of a byte string; `none` is a byte that begins no character. -/
def units (s : ByteString) : List (Option Char) := unitsFrom 0 s

theorem unitsFrom_append (s rest : ByteString) : unitsFrom s.length (s ++ rest) = units rest := by
  induction s with
  | nil => rfl
  | cons b s ih => simpa [unitsFrom] using ih

@[simp] theorem units_nil : units [] = [] := rfl

@[simp] theorem units_encode_append (c : Char) (s : ByteString) :
    units (String.utf8EncodeChar c ++ s) = some c :: units s := by
  have hgot := decodeChar?_encode_append c s
  have hsize := String.length_utf8EncodeChar c
  cases hbytes : String.utf8EncodeChar c with
  | nil => exact absurd hbytes String.utf8EncodeChar_ne_nil
  | cons b bytes =>
    rw [hbytes] at hgot hsize
    have hskip : c.utf8Size - 1 = bytes.length := by simp [← hsize]
    simp only [units, List.cons_append] at hgot ⊢
    rw [unitsFrom, hgot]
    simp only [hskip, unitsFrom_append, units]

theorem units_invalid (h : decodeChar? (b :: s) = none) : units (b :: s) = none :: units s := by
  rw [units, unitsFrom, h]
  rfl

variable {motive : ByteString → Prop}

/-- Induction over the units of a byte string. -/
@[elab_as_elim]
theorem unitsInduction (nil : motive [])
    (char : ∀ c s, motive s → motive (String.utf8EncodeChar c ++ s))
    (invalid : ∀ b s, decodeChar? (b :: s) = none → motive s → motive (b :: s))
    (s : ByteString) : motive s := by
  induction hlen : s.length using Nat.strongRecOn generalizing s with
  | _ n ih =>
    cases s with
    | nil => exact nil
    | cons b s =>
      cases hgot : decodeChar? (b :: s) with
      | none => exact invalid b s hgot (ih s.length (by simp [← hlen]) s rfl)
      | some c =>
        obtain ⟨rest, hrest⟩ := eq_encode_append_of_decodeChar? hgot
        have hsize := congrArg List.length hrest
        have hpos := List.length_pos_iff.mpr (String.utf8EncodeChar_ne_nil (c := c))
        rw [List.length_append, hlen] at hsize
        rw [hrest]
        exact char c rest (ih rest.length (by omega) rest rfl)

/-- Every byte that begins no character becomes the replacement character. -/
def sanitize (s : ByteString) : ByteString :=
  (units s).flatMap fun u => String.utf8EncodeChar (u.getD replacement)

@[simp] theorem sanitize_nil : sanitize [] = [] := rfl

@[simp] theorem sanitize_encode_append (c : Char) (s : ByteString) :
    sanitize (String.utf8EncodeChar c ++ s) = String.utf8EncodeChar c ++ sanitize s := by
  simp [sanitize]

theorem sanitize_invalid (h : decodeChar? (b :: s) = none) :
    sanitize (b :: s) = String.utf8EncodeChar replacement ++ sanitize s := by
  simp [sanitize, units_invalid h]

@[simp] theorem sanitize_ascii (hb : b < 128) (s : ByteString) :
    sanitize (b :: s) = b :: sanitize s := by
  have h := sanitize_encode_append (Char.ofNat b.toNat) s
  rwa [encode_ascii hb] at h

theorem units_flatMap_encode (cs : List Char) :
    units (cs.flatMap String.utf8EncodeChar) = cs.map some := by
  induction cs with
  | nil => rfl
  | cons c cs ih => simp [ih]

theorem sanitize_eq_flatMap (s : ByteString) :
    sanitize s = ((units s).map fun u => u.getD replacement).flatMap String.utf8EncodeChar := by
  rw [sanitize, List.flatMap_map]

theorem sanitize_flatMap_encode (cs : List Char) :
    sanitize (cs.flatMap String.utf8EncodeChar) = cs.flatMap String.utf8EncodeChar := by
  rw [sanitize_eq_flatMap, units_flatMap_encode, List.map_map]
  congr 1
  exact List.map_id cs

@[simp] theorem sanitize_sanitize (s : ByteString) : sanitize (sanitize s) = sanitize s := by
  rw [sanitize_eq_flatMap s, sanitize_flatMap_encode]

/-- Well-formed UTF-8. -/
def Valid (s : ByteString) : Prop := none ∉ units s

instance (s : ByteString) : Decidable (Valid s) := inferInstanceAs (Decidable (none ∉ units s))

/-- Each replaced byte grows to three. -/
theorem length_sanitize (s : ByteString) :
    (sanitize s).length = s.length + 2 * (units s).count none := by
  induction s using unitsInduction with
  | nil => rfl
  | char c s ih =>
    simp only [sanitize_encode_append, units_encode_append, List.length_append, ih]
    rw [List.count_cons_of_ne (by simp)]
    omega
  | invalid b s h ih =>
    have hthree : (String.utf8EncodeChar replacement).length = 3 := by decide
    simp only [sanitize_invalid h, units_invalid h, List.length_append, List.length_cons, ih,
      hthree, List.count_cons_self]
    omega

theorem Valid.sanitize_eq (h : Valid s) : sanitize s = s := by
  induction s using unitsInduction with
  | nil => rfl
  | char c s ih =>
    rw [Valid, units_encode_append, List.mem_cons, not_or] at h
    rw [sanitize_encode_append, ih h.2]
  | invalid b s hb ih =>
    rw [Valid, units_invalid hb] at h
    exact absurd List.mem_cons_self h

theorem valid_sanitize (s : ByteString) : Valid (sanitize s) := by
  rw [Valid, sanitize_eq_flatMap, units_flatMap_encode]
  simp

theorem valid_iff_sanitize_eq : Valid s ↔ sanitize s = s := by
  constructor
  · exact Valid.sanitize_eq
  · intro h
    rw [← h]
    exact valid_sanitize s

theorem valid_of_ascii (h : ∀ b ∈ s, b < 128) : Valid s := by
  rw [valid_iff_sanitize_eq]
  induction s with
  | nil => rfl
  | cons b s ih =>
    rw [sanitize_ascii (h b List.mem_cons_self), ih fun c hc => h c (List.mem_cons_of_mem b hc)]

theorem valid_of_all (h : s.all (· < 128)) : Valid s :=
  valid_of_ascii (by simpa using h)

/-- The same induction with the ASCII characters apart, and for scanners that jump: each case may
use every string that is no longer than what follows its unit. -/
@[elab_as_elim]
theorem scanInduction (nil : motive [])
    (low : ∀ b s, b < 128 → (∀ t : ByteString, t.length ≤ s.length → motive t) → motive (b :: s))
    (high : ∀ c s, 127 < c.val.toNat → (∀ t : ByteString, t.length ≤ s.length → motive t) →
      motive (String.utf8EncodeChar c ++ s))
    (invalid : ∀ b s, decodeChar? (b :: s) = none →
      (∀ t : ByteString, t.length ≤ s.length → motive t) → motive (b :: s))
    (s : ByteString) : motive s := by
  induction hlen : s.length using Nat.strongRecOn generalizing s with
  | _ n ih =>
    have hshort : ∀ t : ByteString, t.length < n → motive t := fun t ht => ih t.length ht t rfl
    cases s using unitsInduction with
    | nil => exact nil
    | invalid b s hb _ =>
      refine invalid b s hb fun t ht => hshort t ?_
      rw [← hlen, List.length_cons]
      omega
    | char c s _ =>
      have hrest : ∀ t : ByteString, t.length ≤ s.length → motive t := by
        intro t ht
        have hpos := List.length_pos_iff.mpr (String.utf8EncodeChar_ne_nil (c := c))
        refine hshort t ?_
        rw [← hlen, List.length_append]
        omega
      by_cases hc : 127 < c.val.toNat
      · exact high c s hc hrest
      · have hbyte : String.utf8EncodeChar c = [UInt8.ofNat c.val.toNat] := by
          simp only [String.utf8EncodeChar, Nat.not_lt.mp hc, if_true]
        rw [hbyte]
        refine low _ s ?_ hrest
        rw [UInt8.lt_iff_toNat_lt, UInt8.toNat_ofNat_of_lt'
          (Nat.lt_of_le_of_lt (Nat.not_lt.mp hc) (by decide))]
        exact Nat.lt_succ_of_le (Nat.not_lt.mp hc)

/-- What begins no character in a string begins none in a shorter one. -/
theorem decodeChar?_eq_none_of_isPrefix {s t : ByteString}
    (h : decodeChar? (b :: s) = none) (hsub : t <+: s) : decodeChar? (b :: t) = none := by
  cases hgot : decodeChar? (b :: t) with
  | none => rfl
  | some =>
    obtain ⟨rest, hrest⟩ := eq_encode_append_of_decodeChar? hgot
    obtain ⟨tail, rfl⟩ := hsub
    rw [← List.cons_append, hrest, List.append_assoc, decodeChar?_encode_append] at h
    exact absurd h nofun

theorem high_of_mem_replacement : ∀ b ∈ String.utf8EncodeChar replacement, 128 ≤ b := by
  have hall : (String.utf8EncodeChar replacement).all (128 ≤ ·) := by decide
  simpa using hall

/-- Bytes outside ASCII, at least one. -/
def HighRun (run : ByteString) : Prop := run ≠ [] ∧ ∀ b ∈ run, 128 ≤ b

/-- The replacement keeps ASCII bytes, and puts a run of other bytes in the place of such a run. -/
theorem sanitizeInduction {motive : ByteString → ByteString → Prop} (nil : motive [] [])
    (low : ∀ b s, b < 128 → (∀ t : ByteString, t.length ≤ s.length → motive t (sanitize t)) →
      motive (b :: s) (b :: sanitize s))
    (run : ∀ front front' s, HighRun front → HighRun front' →
      (∀ t : ByteString, t.length ≤ s.length → motive t (sanitize t)) →
        motive (front ++ s) (front' ++ sanitize s))
    (s : ByteString) : motive s (sanitize s) := by
  induction s using scanInduction with
  | nil => exact nil
  | low b s hb ih =>
    rw [sanitize_ascii hb]
    exact low b s hb ih
  | high c s hc ih =>
    have hrun : HighRun (String.utf8EncodeChar c) := ⟨String.utf8EncodeChar_ne_nil, encode_high hc⟩
    rw [sanitize_encode_append]
    exact run _ _ s hrun hrun ih
  | invalid b s hb ih =>
    rw [sanitize_invalid hb]
    exact run [b] _ s ⟨List.cons_ne_nil b [], by simpa using high_of_decodeChar?_eq_none hb⟩
      ⟨String.utf8EncodeChar_ne_nil, high_of_mem_replacement⟩ ih

/-- A string without replaced bytes is the only one that is read so. -/
theorem eq_of_sanitize_ascii {s t : ByteString} (ht : ∀ b ∈ t, b < 128) (h : sanitize s = t) :
    s = t := by
  revert t
  refine sanitizeInduction (motive := fun s u => ∀ {t}, (∀ b ∈ t, b < 128) → u = t → s = t)
    ?_ ?_ ?_ s
  · exact fun _ h => h
  · rintro b s - ih _ ht rfl
    exact congrArg (b :: ·) (ih s (Nat.le_refl _)
      (fun c hc => ht c (List.mem_cons_of_mem b hc)) rfl)
  · rintro front front' s - ⟨hne, hhigh⟩ - _ ht rfl
    obtain ⟨b, hb⟩ := List.exists_mem_of_ne_nil _ hne
    exact absurd (hhigh b hb) (UInt8.not_le.mpr (ht b (List.mem_append_left _ hb)))

end Utf8

end Rhiza.Foundations
