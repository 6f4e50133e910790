import Rhiza.Foundations.Utf8

/-! # Standard base64

The padded encoding with the standard alphabet. The decoder skips line breaks anywhere,
wants the padding at the end, and does not look at the bits the padding leaves over.
-/

namespace Rhiza.Foundations.Base64

def pad : UInt8 := 61

/-- The letter of a six-bit digit. -/
def letter (n : ℕ) : UInt8 :=
  if n < 26 then UInt8.ofNat (65 + n)
  else if n < 52 then UInt8.ofNat (71 + n)
  else if n < 62 then UInt8.ofNat (n - 4)
  else if n = 62 then 43 else 47

/-- The six-bit digit of a letter. -/
def digit? (b : UInt8) : Option ℕ :=
  if 65 ≤ b ∧ b ≤ 90 then some (b.toNat - 65)
  else if 97 ≤ b ∧ b ≤ 122 then some (b.toNat - 71)
  else if 48 ≤ b ∧ b ≤ 57 then some (b.toNat + 4)
  else if b = 43 then some 62
  else if b = 47 then some 63
  else none

def encode : ByteString → ByteString
  | [] => []
  | [a] => [letter (a.toNat / 4), letter (a.toNat % 4 * 16), pad, pad]
  | [a, b] =>
    [letter (a.toNat / 4), letter (a.toNat % 4 * 16 + b.toNat / 16),
      letter (b.toNat % 16 * 4), pad]
  | a :: b :: c :: rest =>
    letter (a.toNat / 4) :: letter (a.toNat % 4 * 16 + b.toNat / 16) ::
      letter (b.toNat % 16 * 4 + c.toNat / 64) :: letter (c.toNat % 64) :: encode rest

-- The bytes that two neighbouring digits share, in the order of the group.
def firstByte (w x : ℕ) : UInt8 := UInt8.ofNat (w * 4 + x / 16)
def secondByte (x y : ℕ) : UInt8 := UInt8.ofNat (x % 16 * 16 + y / 4)
def thirdByte (y z : ℕ) : UInt8 := UInt8.ofNat (y % 4 * 64 + z)

/-- Decodes groups of four letters. -/
def decodeGroups : ByteString → Option ByteString
  | [] => some []
  | a :: b :: c :: d :: rest => do
    let w ← digit? a
    let x ← digit? b
    if c = pad then
      if d = pad ∧ rest = [] then some [firstByte w x] else none
    else
      let y ← digit? c
      if d = pad then
        if rest = [] then some [firstByte w x, secondByte x y] else none
      else
        let z ← digit? d
        let bytes ← decodeGroups rest
        some (firstByte w x :: secondByte x y :: thirdByte y z :: bytes)
  | _ => none

def lineBreak (b : UInt8) : Bool := b = 10 ∨ b = 13

def decode (text : ByteString) : Option ByteString :=
  decodeGroups (text.filter fun b => !lineBreak b)

theorem letter_spec : ∀ n : Fin 64, digit? (letter n) = some n.val ∧ letter n ≠ pad ∧
    lineBreak (letter n) = false ∧ letter n < 128 := by
  decide

variable {n : ℕ}

theorem digit?_letter (h : n < 64) : digit? (letter n) = some n := (letter_spec ⟨n, h⟩).1

theorem letter_ne_pad (h : n < 64) : letter n ≠ pad := (letter_spec ⟨n, h⟩).2.1

variable {bytes : ByteString} {b : UInt8}

/-- The bytes of an encoding are letters and padding. -/
theorem mem_encode (h : b ∈ encode bytes) : b = pad ∨ ∃ n < 64, b = letter n := by
  induction bytes using encode.induct with
  | case1 => exact absurd h List.not_mem_nil
  | case2 a =>
    have ha := a.toNat_lt
    simp only [encode, List.mem_cons, List.not_mem_nil, or_false] at h
    rcases h with rfl | rfl | rfl | rfl
    · exact .inr ⟨_, by omega, rfl⟩
    · exact .inr ⟨_, by omega, rfl⟩
    · exact .inl rfl
    · exact .inl rfl
  | case3 a c =>
    have ha := a.toNat_lt
    have hc := c.toNat_lt
    simp only [encode, List.mem_cons, List.not_mem_nil, or_false] at h
    rcases h with rfl | rfl | rfl | rfl
    · exact .inr ⟨_, by omega, rfl⟩
    · exact .inr ⟨_, by omega, rfl⟩
    · exact .inr ⟨_, by omega, rfl⟩
    · exact .inl rfl
  | case4 a c d rest ih =>
    have ha := a.toNat_lt
    have hc := c.toNat_lt
    have hd := d.toNat_lt
    simp only [encode, List.mem_cons] at h
    rcases h with rfl | rfl | rfl | rfl | h
    · exact .inr ⟨_, by omega, rfl⟩
    · exact .inr ⟨_, by omega, rfl⟩
    · exact .inr ⟨_, by omega, rfl⟩
    · exact .inr ⟨_, by omega, rfl⟩
    · exact ih h

theorem ascii_of_mem_encode (h : b ∈ encode bytes) : b < 128 := by
  obtain rfl | ⟨n, hn, rfl⟩ := mem_encode h
  · decide
  · exact (letter_spec ⟨n, hn⟩).2.2.2

theorem filter_encode (bytes : ByteString) :
    (encode bytes).filter (fun b => !lineBreak b) = encode bytes := by
  rw [List.filter_eq_self]
  intro b hb
  obtain rfl | ⟨n, hn, rfl⟩ := mem_encode hb
  · rfl
  · rw [(letter_spec ⟨n, hn⟩).2.2.1]
    rfl

theorem ofNat_eq (h : n = b.toNat) : UInt8.ofNat n = b := by
  rw [h, UInt8.ofNat_toNat]

theorem decodeGroups_encode (bytes : ByteString) : decodeGroups (encode bytes) = some bytes := by
  induction bytes using encode.induct with
  | case1 => rfl
  | case2 a =>
    have ha := a.toNat_lt
    have hfirst : firstByte (a.toNat / 4) (a.toNat % 4 * 16) = a := ofNat_eq (by omega)
    simp [encode, decodeGroups, digit?_letter (show a.toNat / 4 < 64 by omega),
      digit?_letter (show a.toNat % 4 * 16 < 64 by omega), hfirst]
  | case3 a b =>
    have ha := a.toNat_lt
    have hb := b.toNat_lt
    have hfirst : firstByte (a.toNat / 4) (a.toNat % 4 * 16 + b.toNat / 16) = a :=
      ofNat_eq (by omega)
    have htwo : secondByte (a.toNat % 4 * 16 + b.toNat / 16) (b.toNat % 16 * 4) = b :=
      ofNat_eq (by omega)
    simp [encode, decodeGroups, digit?_letter (show a.toNat / 4 < 64 by omega),
      digit?_letter (show a.toNat % 4 * 16 + b.toNat / 16 < 64 by omega),
      digit?_letter (show b.toNat % 16 * 4 < 64 by omega),
      letter_ne_pad (show b.toNat % 16 * 4 < 64 by omega), hfirst, htwo]
  | case4 a b c rest ih =>
    have ha := a.toNat_lt
    have hb := b.toNat_lt
    have hc := c.toNat_lt
    have hfirst : firstByte (a.toNat / 4) (a.toNat % 4 * 16 + b.toNat / 16) = a :=
      ofNat_eq (by omega)
    have htwo : secondByte (a.toNat % 4 * 16 + b.toNat / 16)
        (b.toNat % 16 * 4 + c.toNat / 64) = b := ofNat_eq (by omega)
    have hthird : thirdByte (b.toNat % 16 * 4 + c.toNat / 64) (c.toNat % 64) = c :=
      ofNat_eq (by omega)
    simp [encode, decodeGroups, digit?_letter (show a.toNat / 4 < 64 by omega),
      digit?_letter (show a.toNat % 4 * 16 + b.toNat / 16 < 64 by omega),
      digit?_letter (show b.toNat % 16 * 4 + c.toNat / 64 < 64 by omega),
      digit?_letter (show c.toNat % 64 < 64 by omega),
      letter_ne_pad (show b.toNat % 16 * 4 + c.toNat / 64 < 64 by omega),
      letter_ne_pad (show c.toNat % 64 < 64 by omega), hfirst, htwo, hthird, ih]

theorem decode_encode (bytes : ByteString) : decode (encode bytes) = some bytes := by
  rw [decode, filter_encode, decodeGroups_encode]

theorem ascii_of_digit? (h : digit? b = some n) : b < 128 := by
  have h122 : (122 : UInt8).toNat = 122 := rfl
  have h90 : (90 : UInt8).toNat = 90 := rfl
  have h57 : (57 : UInt8).toNat = 57 := rfl
  rw [UInt8.lt_iff_toNat_lt, show (128 : UInt8).toNat = 128 from rfl]
  simp only [digit?, UInt8.le_iff_toNat_le] at h
  split at h
  · omega
  · split at h
    · omega
    · split at h
      · omega
      · split at h
        · next hb => rw [hb]; decide
        · split at h
          · next hb => rw [hb]; decide
          · exact absurd h nofun

theorem ascii_of_decodeGroups {text : ByteString} (h : decodeGroups text = some bytes) :
    ∀ b ∈ text, b < 128 := by
  induction text using decodeGroups.induct generalizing bytes with
  | case1 => exact fun _ hb => absurd hb List.not_mem_nil
  | case2 a b c d rest ih =>
    have hpad : pad < 128 := by decide
    simp only [decodeGroups, Option.bind_eq_bind, Option.bind_eq_some_iff] at h
    obtain ⟨w, hw, x, hx, h⟩ := h
    intro e he
    simp only [List.mem_cons] at he
    split at h
    · next hc =>
      split at h
      · next hd =>
        rcases he with rfl | rfl | rfl | rfl | he
        · exact ascii_of_digit? hw
        · exact ascii_of_digit? hx
        · exact hc ▸ hpad
        · exact hd.1 ▸ hpad
        · exact absurd (hd.2 ▸ he) List.not_mem_nil
      · exact absurd h nofun
    · obtain ⟨y, hy, h⟩ := Option.bind_eq_some_iff.mp h
      split at h
      · next hd =>
        split at h
        · next hrest =>
          rcases he with rfl | rfl | rfl | rfl | he
          · exact ascii_of_digit? hw
          · exact ascii_of_digit? hx
          · exact ascii_of_digit? hy
          · exact hd ▸ hpad
          · exact absurd (hrest ▸ he) List.not_mem_nil
        · exact absurd h nofun
      · simp only [Option.bind_eq_some_iff] at h
        obtain ⟨z, hz, tail, htail, -⟩ := h
        rcases he with rfl | rfl | rfl | rfl | he
        · exact ascii_of_digit? hw
        · exact ascii_of_digit? hx
        · exact ascii_of_digit? hy
        · exact ascii_of_digit? hz
        · exact ih htail e he
  | case3 text hnil hgroup =>
    rw [decodeGroups] at h
    · exact absurd h nofun
    · exact hnil
    · exact hgroup

/-- Only ASCII texts decode. -/
theorem ascii_of_decode {text : ByteString} (h : decode text = some bytes) :
    ∀ b ∈ text, b < 128 := by
  intro b hb
  by_cases hline : lineBreak b = true
  · simp only [lineBreak, decide_eq_true_eq] at hline
    rcases hline with rfl | rfl <;> decide
  · exact ascii_of_decodeGroups h b (List.mem_filter.mpr ⟨hb, by simp [hline]⟩)

end Rhiza.Foundations.Base64
