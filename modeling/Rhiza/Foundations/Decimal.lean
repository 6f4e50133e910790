import Mathlib.Data.List.TakeWhile
import Mathlib.Data.Nat.Digits.Lemmas
import Rhiza.Foundations.Utf8

/-! # Decimal numbers

The decimal spelling of integers and its reader, and the number grammar of JSON.
-/

namespace Rhiza.Foundations.Decimal

def isDigit (b : UInt8) : Bool := 48 ≤ b ∧ b ≤ 57

def digitByte (d : ℕ) : UInt8 := UInt8.ofNat (48 + d)

def formatNat (n : ℕ) : ByteString :=
  if n = 0 then [48] else (Nat.digits 10 n).reverse.map digitByte

def formatInt : ℤ → ByteString
  | .ofNat n => formatNat n
  | .negSucc n => 45 :: formatNat (n + 1)

def parseNat? (s : ByteString) : Option ℕ :=
  if s = [] ∨ ¬ s.all isDigit then none
  else some (s.foldl (fun n b => n * 10 + (b.toNat - 48)) 0)

/-- Reads a signed integer within the range of 64 bits. -/
def parseInt64? : ByteString → Option ℤ
  | 45 :: s => (parseNat? s).bind fun n => if n ≤ 2 ^ 63 then some (-n) else none
  | 43 :: s => (parseNat? s).bind fun n => if n < 2 ^ 63 then some n else none
  | s => (parseNat? s).bind fun n => if n < 2 ^ 63 then some n else none

theorem digitByte_spec : ∀ d : Fin 10,
    isDigit (digitByte d) = true ∧ (digitByte d).toNat - 48 = d.val ∧
      (d.val ≠ 0 → 49 ≤ digitByte d ∧ digitByte d ≤ 57) := by
  decide

variable {n : ℕ} {b : UInt8}

theorem isDigit_of_mem_formatNat (h : b ∈ formatNat n) : isDigit b = true := by
  rw [formatNat] at h
  split at h
  · rw [List.mem_singleton.mp h]
    rfl
  · obtain ⟨d, hd, rfl⟩ := List.mem_map.mp h
    have hlt := Nat.digits_lt_base (by omega) (List.mem_reverse.mp hd)
    exact (digitByte_spec ⟨d, hlt⟩).1

theorem formatNat_ne_nil (n : ℕ) : formatNat n ≠ [] := by
  rw [formatNat]
  split
  · exact List.cons_ne_nil _ _
  · next hn => simpa [Nat.digits_eq_nil_iff_eq_zero] using hn

theorem foldl_digits {ds : List ℕ} (h : ∀ d ∈ ds, d < 10) :
    (ds.reverse.map digitByte).foldl (fun n b => n * 10 + (b.toNat - 48)) 0 =
      Nat.ofDigits 10 ds := by
  induction ds with
  | nil => rfl
  | cons d ds ih =>
    have hd : (digitByte d).toNat - 48 = d := (digitByte_spec ⟨d, h d List.mem_cons_self⟩).2.1
    rw [List.reverse_cons, List.map_append, List.foldl_append,
      ih fun e he => h e (List.mem_cons_of_mem d he), Nat.ofDigits_cons]
    simp only [List.map_cons, List.map_nil, List.foldl_cons, List.foldl_nil]
    omega

theorem parseNat?_formatNat (n : ℕ) : parseNat? (formatNat n) = some n := by
  have hdigits : (formatNat n).all isDigit = true :=
    List.all_eq_true.mpr fun b hb => isDigit_of_mem_formatNat hb
  rw [parseNat?, if_neg (by simp [formatNat_ne_nil, hdigits]), formatNat]
  split
  · next hn => simp [hn]
  · rw [foldl_digits fun d hd => Nat.digits_lt_base (by omega) hd, Nat.ofDigits_digits]

/-- A spelled natural number begins with a digit. -/
theorem formatNat_cons (n : ℕ) : ∃ b s, formatNat n = b :: s ∧ isDigit b = true := by
  obtain ⟨b, s, h⟩ := List.exists_cons_of_ne_nil (formatNat_ne_nil n)
  exact ⟨b, s, h, isDigit_of_mem_formatNat (h ▸ List.mem_cons_self)⟩

theorem parseInt64?_formatNat (h : n < 2 ^ 63) : parseInt64? (formatNat n) = some (n : ℤ) := by
  have hparse := parseNat?_formatNat n
  obtain ⟨b, s, hb, hdigit⟩ := formatNat_cons n
  rw [hb] at hparse ⊢
  have hminus : b ≠ 45 := by rintro rfl; exact absurd hdigit (by decide)
  have hplus : b ≠ 43 := by rintro rfl; exact absurd hdigit (by decide)
  rw [parseInt64?]
  · simp only [hparse, Option.bind_some, if_pos h]
  · intro s' heq
    exact hminus (List.cons.inj heq).1
  · intro s' heq
    exact hplus (List.cons.inj heq).1

theorem parseInt64?_formatInt {z : ℤ} (hlow : -2 ^ 63 ≤ z) (hhigh : z < 2 ^ 63) :
    parseInt64? (formatInt z) = some z := by
  cases z with
  | ofNat => exact parseInt64?_formatNat (by simpa using hhigh)
  | negSucc n =>
    have hn : n + 1 ≤ 2 ^ 63 := by omega
    simp only [formatInt, parseInt64?, parseNat?_formatNat, Option.bind_some, if_pos hn]
    rfl

/-! ## The number grammar -/

def validExponent : ByteString → Bool
  | [] => true
  | e :: sign :: rest =>
    (e = 101 ∨ e = 69) ∧
      (if sign = 43 ∨ sign = 45 then rest ≠ [] ∧ rest.all isDigit
        else (sign :: rest).all isDigit)
  | _ => false

def validFraction : ByteString → Bool
  | 46 :: d :: rest =>
    if isDigit d then validExponent (rest.dropWhile isDigit) else false
  | s => validExponent s

def validMagnitude : ByteString → Bool
  | [] => false
  | 48 :: rest => validFraction rest
  | b :: rest => isDigit b ∧ validFraction (rest.dropWhile isDigit)

/-- A JSON number. -/
def validNumber : ByteString → Bool
  | 45 :: s => validMagnitude s
  | s => validMagnitude s

/-- The bytes numbers are spelled with. -/
def numberByte (b : UInt8) : Bool := isDigit b ∨ b = 43 ∨ b = 45 ∨ b = 46 ∨ b = 101 ∨ b = 69

theorem numberByte_of_isDigit (h : isDigit b = true) : numberByte b = true := by
  simp [numberByte, h]

variable {s : ByteString}

theorem numberByte_of_dropWhile
    (h : ∀ b ∈ s.dropWhile isDigit, numberByte b = true) : ∀ b ∈ s, numberByte b = true := by
  intro b hb
  rw [← List.takeWhile_append_dropWhile (p := isDigit) (l := s)] at hb
  rcases List.mem_append.mp hb with hb | hb
  · exact numberByte_of_isDigit (List.mem_takeWhile_imp hb)
  · exact h b hb

theorem numberByte_of_validExponent (h : validExponent s = true) :
    ∀ b ∈ s, numberByte b = true := by
  cases s with
  | nil => simp
  | cons e s =>
    cases s with
    | nil => simp [validExponent] at h
    | cons =>
      simp only [validExponent, decide_eq_true_eq] at h
      obtain ⟨he, h⟩ := h
      intro b hb
      rcases List.mem_cons.mp hb with rfl | hb
      · rcases he with rfl | rfl <;> rfl
      · split at h
        · next hsign =>
          rcases List.mem_cons.mp hb with rfl | hb
          · rcases hsign with rfl | rfl <;> rfl
          · exact numberByte_of_isDigit (List.all_eq_true.mp h.2 b hb)
        · exact numberByte_of_isDigit (List.all_eq_true.mp h b hb)

theorem numberByte_of_validFraction (h : validFraction s = true) :
    ∀ b ∈ s, numberByte b = true := by
  rw [validFraction.eq_def] at h
  split at h
  · next d rest =>
    split at h
    · next hd =>
      intro b hb
      simp only [List.mem_cons] at hb
      rcases hb with rfl | rfl | hb
      · rfl
      · exact numberByte_of_isDigit hd
      · exact numberByte_of_dropWhile (numberByte_of_validExponent h) b hb
    · exact absurd h nofun
  · exact numberByte_of_validExponent h

theorem numberByte_of_validMagnitude (h : validMagnitude s = true) :
    ∀ b ∈ s, numberByte b = true := by
  rw [validMagnitude.eq_def] at h
  split at h
  · exact absurd h nofun
  · next rest =>
    intro b hb
    rcases List.mem_cons.mp hb with rfl | hb
    · rfl
    · exact numberByte_of_validFraction h b hb
  · next d rest _ =>
    simp only [decide_eq_true_eq] at h
    intro b hb
    rcases List.mem_cons.mp hb with rfl | hb
    · exact numberByte_of_isDigit h.1
    · exact numberByte_of_dropWhile (numberByte_of_validFraction h.2) b hb

theorem numberByte_of_validNumber (h : validNumber s = true) : ∀ b ∈ s, numberByte b = true := by
  rw [validNumber.eq_def] at h
  split at h
  · intro b hb
    rcases List.mem_cons.mp hb with rfl | hb
    · rfl
    · exact numberByte_of_validMagnitude h b hb
  · exact numberByte_of_validMagnitude h

/-- A number begins with its sign or a digit. -/
theorem validNumber_cons (h : validNumber s = true) :
    ∃ b rest, s = b :: rest ∧ (b = 45 ∨ isDigit b = true) := by
  cases s with
  | nil => simp [validNumber, validMagnitude] at h
  | cons b rest =>
    refine ⟨b, rest, rfl, ?_⟩
    rw [validNumber.eq_def] at h
    split at h
    · next heq => exact .inl (List.cons.inj heq).1
    · refine .inr ?_
      rw [validMagnitude.eq_def] at h
      split at h
      · exact absurd h nofun
      · next heq => rw [(List.cons.inj heq).1]; rfl
      · next heq =>
        rw [(List.cons.inj heq).1]
        simp only [decide_eq_true_eq] at h
        exact h.1

theorem validFraction_nil : validFraction [] = true := rfl

theorem validMagnitude_formatNat (n : ℕ) : validMagnitude (formatNat n) = true := by
  have hall : ∀ b ∈ formatNat n, isDigit b = true := fun b hb => isDigit_of_mem_formatNat hb
  by_cases hn : n = 0
  · rw [formatNat, if_pos hn]
    rfl
  · obtain ⟨b, s, hb, hdigit⟩ := formatNat_cons n
    -- The leading digit is not zero, so the whole spelling is one run of digits.
    have hzero : b ≠ 48 := by
      rintro rfl
      have hlast := Nat.getLast_digit_ne_zero 10 hn
      have hdigits : formatNat n = (Nat.digits 10 n).reverse.map digitByte := by
        rw [formatNat, if_neg hn]
      have hhead : ((Nat.digits 10 n).reverse.map digitByte).head? = some 48 := by
        rw [← hdigits, hb]
        rfl
      rw [List.head?_map, List.head?_reverse,
        List.getLast?_eq_some_getLast (Nat.digits_ne_nil_iff_ne_zero.mpr hn)] at hhead
      have hlt : (Nat.digits 10 n).getLast (Nat.digits_ne_nil_iff_ne_zero.mpr hn) < 10 :=
        Nat.digits_lt_base (by omega) (List.getLast_mem _)
      have hspec := (digitByte_spec ⟨_, hlt⟩).2.2 hlast
      simp only [Option.map_some, Option.some.injEq] at hhead
      rw [hhead] at hspec
      exact absurd hspec.1 (by decide)
    have hrest : s.dropWhile isDigit = [] := by
      rw [List.dropWhile_eq_nil_iff]
      intro c hc
      exact hall c (hb ▸ List.mem_cons_of_mem b hc)
    rw [hb, validMagnitude]
    · simp [hdigit, hrest, validFraction_nil]
    · intro heq
      exact hzero heq

theorem validNumber_formatInt (z : ℤ) : validNumber (formatInt z) = true := by
  cases z with
  | ofNat n =>
    obtain ⟨b, s, hb, hdigit⟩ := formatNat_cons n
    have hmagnitude := validMagnitude_formatNat n
    rw [formatInt, hb] at *
    rw [validNumber]
    · exact hmagnitude
    · intro s' heq
      rw [(List.cons.inj heq).1] at hdigit
      exact absurd hdigit (by decide)
  | negSucc n => exact validMagnitude_formatNat (n + 1)

end Rhiza.Foundations.Decimal
