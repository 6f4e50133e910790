import Rhiza.Foundations.Json

/-! # Reading back a written JSON text

The reader undoes the writer up to the strings: each comes back with the bytes that begin
no character replaced.
-/

namespace Rhiza.Foundations.Json

open Decimal

/-! ## Strings -/

/-- What the reader makes of a written character. -/
def charPieces (c : Char) : List Piece :=
  if (shortEscape? c.toNat).isSome then [.byte (UInt8.ofNat c.toNat)]
  else if coded c.toNat then [.code c.toNat]
  else (String.utf8EncodeChar c).map .byte

theorem hexValue?_hexDigit : ∀ n : Fin 16, hexValue? (hexDigit n) = some n.val := by
  decide

variable {n : ℕ}

theorem hexValue4?_digits (h : n < 65536) :
    hexValue4? (hexDigit (n / 4096 % 16)) (hexDigit (n / 256 % 16)) (hexDigit (n / 16 % 16))
      (hexDigit (n % 16)) = some n := by
  have hdigit : ∀ m, hexValue? (hexDigit (m % 16)) = some (m % 16) := fun m =>
    hexValue?_hexDigit ⟨m % 16, Nat.mod_lt m (by decide)⟩
  simp only [hexValue4?, hdigit, Option.bind_eq_bind, Option.bind_some, Option.some.injEq]
  omega

/-- Puts parts in front of a reading. -/
def prepend (front : List Piece) (reading : List Piece × ByteString) : List Piece × ByteString :=
  (front ++ reading.1, reading.2)

theorem parsePieces_escapeCode (h : n < 65536) (rest : ByteString) :
    parsePieces (escapeCode n ++ rest) = (parsePieces rest).map (prepend [.code n]) := by
  simp only [escapeCode, List.cons_append, List.nil_append, parsePieces, hexValue4?_digits h,
    Option.bind_eq_bind, Option.bind_some]
  cases parsePieces rest <;> rfl

variable {b : UInt8}

theorem parsePieces_byte (hlow : 32 ≤ b) (hquote : b ≠ 34) (hslash : b ≠ 92)
    (rest : ByteString) : parsePieces (b :: rest) = (parsePieces rest).map (prepend [.byte b]) := by
  rw [parsePieces.eq_def]
  split
  · exact absurd ‹_› (List.cons_ne_nil _ _)
  · next heq => exact absurd (List.cons.inj heq).1 hquote
  · next heq => exact absurd (List.cons.inj heq).1 hslash
  · next heq => exact absurd (List.cons.inj heq).1 hslash
  · next heq =>
    obtain ⟨rfl, rfl⟩ := List.cons.inj heq
    rw [if_neg (by simp [UInt8.not_lt.mpr hlow, hslash])]
    cases parsePieces rest <;> rfl

theorem parsePieces_bytes {bytes : ByteString}
    (h : ∀ b ∈ bytes, 32 ≤ b ∧ b ≠ 34 ∧ b ≠ 92) (rest : ByteString) :
    parsePieces (bytes ++ rest) = (parsePieces rest).map (prepend (bytes.map .byte)) := by
  induction bytes with
  | nil => cases hread : parsePieces rest <;> simp [prepend, hread]
  | cons b bytes ih =>
    obtain ⟨hlow, hquote, hslash⟩ := h b List.mem_cons_self
    rw [List.cons_append, parsePieces_byte hlow hquote hslash,
      ih fun c hc => h c (List.mem_cons_of_mem b hc), Option.map_map]
    rfl

/-- The bytes of a character that needs no escape. -/
theorem plain_bytes {c : Char} (hshort : shortEscape? c.toNat = none)
    (hcoded : coded c.toNat = false) : ∀ b ∈ String.utf8EncodeChar c, 32 ≤ b ∧ b ≠ 34 ∧ b ≠ 92 := by
  intro b hb
  by_cases hascii : c.val.toNat ≤ 127
  · have hplain : 32 ≤ c.val.toNat ∧ c.val.toNat ≠ 34 ∧ c.val.toNat ≠ 92 := by
      simp only [shortEscape?, coded, Char.toNat] at hshort hcoded
      grind
    simp only [String.utf8EncodeChar, hascii, if_true, List.mem_singleton] at hb
    have hval : b.toNat = c.val.toNat := by
      rw [hb, UInt8.toNat_ofNat_of_lt' (Nat.lt_of_le_of_lt hascii (by decide))]
    refine ⟨UInt8.le_iff_toNat_le.mpr (hval ▸ hplain.1), ?_, ?_⟩
    · rintro rfl
      exact hplain.2.1 hval.symm
    · rintro rfl
      exact hplain.2.2 hval.symm
  · have hhigh := Utf8.encode_high (Nat.not_le.mp hascii) b hb
    rw [UInt8.le_iff_toNat_le] at hhigh
    refine ⟨UInt8.le_iff_toNat_le.mpr (Nat.le_trans (by decide) hhigh), ?_, ?_⟩
    · rintro rfl
      exact absurd hhigh (by decide)
    · rintro rfl
      exact absurd hhigh (by decide)

theorem parsePieces_short {letter : UInt8} (h : shortEscape? n = some letter) (rest : ByteString) :
    parsePieces (92 :: letter :: rest) =
      (parsePieces rest).map (prepend [.byte (UInt8.ofNat n)]) := by
  have hsome : ∀ b, unescape? letter = some b → letter ≠ 117 →
      parsePieces (92 :: letter :: rest) = (parsePieces rest).map (prepend [.byte b]) := by
    intro b hb hletter
    rw [parsePieces.eq_def]
    split
    · exact absurd ‹_› (List.cons_ne_nil _ _)
    · next heq => exact absurd (List.cons.inj heq).1 (by decide)
    · next heq => exact absurd (List.cons.inj (List.cons.inj heq).2).1 hletter
    · next heq =>
      obtain ⟨rfl, rfl⟩ := List.cons.inj (List.cons.inj heq).2
      rw [hb]
      cases parsePieces rest <;> rfl
    · next hno heq =>
      obtain ⟨rfl, rfl⟩ := List.cons.inj heq
      exact absurd rfl (hno _ _ rfl)
  simp only [shortEscape?] at h
  repeat' split at h
  all_goals first
    | (obtain rfl := Option.some.inj h; subst_vars; exact hsome _ rfl (by decide))
    | exact absurd h nofun

theorem parsePieces_encodeChar (c : Char) (rest : ByteString) :
    parsePieces (encodeChar c ++ rest) = (parsePieces rest).map (prepend (charPieces c)) := by
  cases hshort : shortEscape? c.toNat with
  | some =>
    simp only [encodeChar, charPieces, hshort, Option.isSome_some, if_true, List.cons_append,
      List.nil_append]
    exact parsePieces_short hshort rest
  | none =>
    simp only [encodeChar, charPieces, hshort, Option.isSome_none, Bool.false_eq_true, if_false]
    by_cases hcoded : coded c.toNat = true
    · simp only [hcoded, if_true]
      refine parsePieces_escapeCode ?_ rest
      simp only [coded, decide_eq_true_eq] at hcoded
      omega
    · simp only [hcoded]
      exact parsePieces_bytes (plain_bytes hshort (Bool.eq_false_iff.mpr hcoded)) rest

theorem parsePieces_units (us : List (Option Char)) (rest : ByteString) :
    parsePieces (us.flatMap encodeUnit ++ 34 :: rest) =
      some (us.flatMap fun u => charPieces (u.getD Utf8.replacement), rest) := by
  induction us with
  | nil => simp [parsePieces]
  | cons u us ih =>
    rw [List.flatMap_cons, List.append_assoc, encodeUnit, parsePieces_encodeChar, ih]
    rfl

theorem render_code (h : highSurrogate n = false) (pieces : List Piece) :
    render (.code n :: pieces) = String.utf8EncodeChar (charOf n) ++ render pieces := by
  rw [render.eq_def]
  split
  · next heq => exact absurd heq (List.cons_ne_nil _ _)
  · next heq => exact absurd (List.cons.inj heq).1 nofun
  · next heq =>
    obtain ⟨hn, rfl⟩ := List.cons.inj heq
    obtain rfl := Piece.code.inj hn
    rw [if_neg (by simp [h])]
  · next heq =>
    obtain ⟨hn, rfl⟩ := List.cons.inj heq
    obtain rfl := Piece.code.inj hn
    rfl

theorem render_bytes (bytes : ByteString) (pieces : List Piece) :
    render (bytes.map .byte ++ pieces) = bytes ++ render pieces := by
  induction bytes with
  | nil => rfl
  | cons b bytes ih => rw [List.map_cons, List.cons_append, render, ih, List.cons_append]

theorem charOf_toNat (c : Char) : charOf c.toNat = c := by
  have hvalid : c.toNat.isValidChar := c.valid
  rw [charOf, if_pos hvalid, Char.ofNat_toNat]

theorem not_highSurrogate (c : Char) : highSurrogate c.toNat = false := by
  have hvalid : c.toNat.isValidChar := c.valid
  simp only [Nat.isValidChar] at hvalid
  simp only [highSurrogate, decide_eq_false_iff_not]
  omega

theorem render_charPieces (c : Char) (pieces : List Piece) :
    render (charPieces c ++ pieces) = String.utf8EncodeChar c ++ render pieces := by
  rw [charPieces]
  split
  · next hshort =>
    have hascii : c.val.toNat ≤ 127 := by
      simp only [shortEscape?, Char.toNat] at hshort
      grind
    simp only [String.utf8EncodeChar, hascii, if_true]
    rfl
  · split
    · rw [List.singleton_append, render_code (not_highSurrogate c), charOf_toNat]
    · exact render_bytes _ pieces

theorem render_units (us : List (Option Char)) :
    render (us.flatMap fun u => charPieces (u.getD Utf8.replacement)) =
      us.flatMap fun u => String.utf8EncodeChar (u.getD Utf8.replacement) := by
  induction us with
  | nil => rfl
  | cons u us ih => rw [List.flatMap_cons, render_charPieces, ih, List.flatMap_cons]

/-- A written string is read back well formed. -/
theorem parseText_encodeString (s rest : ByteString) :
    parseText ((Utf8.units s).flatMap encodeUnit ++ 34 :: rest) =
      some (Utf8.sanitize s, rest) := by
  have hsanitized := Utf8.sanitize_sanitize s
  rw [Utf8.sanitize.eq_def s] at hsanitized ⊢
  simp only [parseText, parsePieces_units, Option.map_some, render_units, hsanitized]

/-! ## Values -/

/-- What follows a value does not continue a number. -/
def Ends (rest : ByteString) : Prop := ∀ b ∈ rest.head?, numberByte b = false

theorem ends_nil : Ends [] := nofun

theorem ends_cons (h : numberByte b = false) (rest : ByteString) : Ends (b :: rest) := by
  rintro c ⟨⟩
  exact h

theorem skipSpace_cons (h : isSpace b = false) (rest : ByteString) :
    skipSpace (b :: rest) = b :: rest := by
  rw [skipSpace, List.dropWhile_cons_of_neg (by simp [h])]

theorem takeWhile_number {text rest : ByteString} (h : validNumber text = true)
    (hends : Ends rest) :
    (text ++ rest).takeWhile numberByte = text ∧ (text ++ rest).dropWhile numberByte = rest := by
  have hall := numberByte_of_validNumber h
  rw [List.takeWhile_append_of_pos hall, List.dropWhile_append_of_pos hall]
  cases rest with
  | nil => simp
  | cons b rest =>
    have hb := hends b rfl
    rw [List.takeWhile_cons_of_neg (by simp [hb]), List.dropWhile_cons_of_neg (by simp [hb])]
    exact ⟨List.append_nil text, rfl⟩

variable {rest : ByteString} {fuel : ℕ}

theorem parseNumber_text (text : NumberText) (hends : Ends rest) :
    parseNumber (text ++ rest) = some (.number text, rest) := by
  obtain ⟨htake, hdrop⟩ := takeWhile_number text.2 hends
  simp only [parseNumber, htake, hdrop, text.2, dif_pos]

/-- A digit or a sign begins neither a string, nor a literal, nor a container. -/
theorem number_head (h : b = 45 ∨ isDigit b = true) :
    isSpace b = false ∧ b ≠ 34 ∧ b ≠ 91 ∧ b ≠ 123 ∧ b ≠ 110 ∧ b ≠ 116 ∧ b ≠ 102 := by
  rcases h with rfl | h
  · decide
  · simp only [isDigit, decide_eq_true_eq, UInt8.le_iff_toNat_le] at h
    have hne : ∀ c : UInt8, 57 < c.toNat ∨ c.toNat < 48 → b ≠ c := by
      rintro c hc rfl
      obtain ⟨hlow, hhigh⟩ := h
      have h48 : (48 : UInt8).toNat = 48 := rfl
      have h57 : (57 : UInt8).toNat = 57 := rfl
      omega
    simp only [isSpace, decide_eq_false_iff_not, not_or]
    exact ⟨⟨hne _ (by decide), hne _ (by decide), hne _ (by decide), hne _ (by decide)⟩,
      hne _ (by decide), hne _ (by decide), hne _ (by decide), hne _ (by decide),
      hne _ (by decide), hne _ (by decide)⟩

theorem parseScalar_number (text : NumberText) (hends : Ends rest) :
    parseScalar (text ++ rest) = some (.number text, rest) := by
  have hread := parseNumber_text text hends
  obtain ⟨b, digits, htext, hb⟩ := validNumber_cons text.2
  obtain ⟨-, -, -, -, hnull, htrue, hfalse⟩ := number_head hb
  rw [htext, List.cons_append] at hread ⊢
  rw [parseScalar.eq_def]
  split
  · next heq => exact absurd (List.cons.inj heq).1 hnull
  · next heq => exact absurd (List.cons.inj heq).1 htrue
  · next heq => exact absurd (List.cons.inj heq).1 hfalse
  · exact hread

theorem parseValue_number (text : NumberText) (hends : Ends rest) :
    parseValue (fuel + 1) (text ++ rest) = some (.number text, rest) := by
  have hread := parseScalar_number text hends
  obtain ⟨b, digits, htext, hb⟩ := validNumber_cons text.2
  obtain ⟨hspace, hquote, hbracket, hbrace, -⟩ := number_head hb
  rw [htext, List.cons_append] at hread ⊢
  rw [parseValue, skipSpace_cons hspace]
  split
  · next heq => exact absurd (List.cons.inj heq).1 hquote
  · next heq => exact absurd (List.cons.inj heq).1 hbracket
  · next heq => exact absurd (List.cons.inj heq).1 hbrace
  · exact hread

theorem parseValue_string (s : ByteString) :
    parseValue (fuel + 1) (encodeString s ++ rest) = some (.string (Utf8.sanitize s), rest) := by
  have hread := parseText_encodeString s rest
  rw [encodeString, List.append_assoc, List.cons_append, List.singleton_append, parseValue,
    skipSpace_cons rfl]
  simp only [hread, Option.map_some]

/-- A text begins with neither a space nor a closing bracket. -/
theorem encode_head (v : Json) : ∃ b rest, encode v = b :: rest ∧ isSpace b = false ∧ b ≠ 93 := by
  cases v with
  | null => exact ⟨_, _, rfl, rfl, by decide⟩
  | bool b => cases b <;> exact ⟨_, _, rfl, rfl, by decide⟩
  | string | array | object => exact ⟨_, _, rfl, rfl, by decide⟩
  | number text =>
    obtain ⟨b, rest, htext, hb⟩ := validNumber_cons text.2
    refine ⟨b, rest, htext, (number_head hb).1, ?_⟩
    rintro rfl
    exact absurd hb (by decide)

theorem encodeItems_cons (item : Json) (items : List Json) :
    ∃ tail, encodeItems (item :: items) = encode item ++ tail := by
  cases items with
  | nil => exact ⟨[], by rw [encodeItems, List.append_nil]⟩
  | cons => exact ⟨_, by rw [encodeItems]⟩

theorem encodeFields_cons (field : ByteString × Json) (fields : List (ByteString × Json)) :
    ∃ tail, encodeFields (field :: fields) = 34 :: tail := by
  cases fields with
  | nil | cons => exact ⟨_, by rw [encodeFields]; rfl⟩

-- The three statements follow the shape of a value: one for a value, one for the items of an
-- array and one for the fields of an object. The fuel only has to cover the text.
mutual

theorem parseValue_encode (v : Json) (fuel : ℕ) (rest : ByteString)
    (hfuel : (encode v).length ≤ fuel) (hends : Ends rest) :
    parseValue fuel (encode v ++ rest) = some (v.sanitized, rest) := by
  obtain ⟨b, tail, hhead, -⟩ := encode_head v
  cases fuel with
  | zero => simp [hhead] at hfuel
  | succ fuel =>
    match v with
    | .null => rfl
    | .bool true => rfl
    | .bool false => rfl
    | .number text => exact parseValue_number text hends
    | .string s => exact parseValue_string s
    | .array [] => rfl
    | .array (item :: items) =>
      have hitems := parseItems_encode item items fuel rest
        (by simpa [encode] using hfuel)
      obtain ⟨tail, htail⟩ := encodeItems_cons item items
      obtain ⟨b, rest', hb, hspace, hclose⟩ := encode_head item
      rw [encode, List.append_assoc, List.cons_append, List.singleton_append, parseValue,
        skipSpace_cons rfl]
      rw [htail, hb, List.cons_append, List.cons_append] at hitems ⊢
      simp only [skipSpace_cons hspace]
      split
      · next heq => exact absurd (List.cons.inj heq).1 hclose
      · rw [hitems]
        rfl
    | .object [] => rfl
    | .object (field :: fields) =>
      have htags := parseFields_encode field fields fuel rest
        (by simpa [encode] using hfuel)
      obtain ⟨tail, htail⟩ := encodeFields_cons field fields
      rw [encode, List.append_assoc, List.cons_append, List.singleton_append, parseValue,
        skipSpace_cons rfl]
      rw [htail, List.cons_append] at htags ⊢
      simp only [skipSpace_cons (show isSpace 34 = false from rfl)]
      split
      · next heq => exact absurd (List.cons.inj heq).1 (by decide)
      · rw [htags]
        rfl
termination_by fuel

theorem parseItems_encode (item : Json) (items : List Json) (fuel : ℕ) (rest : ByteString)
    (hfuel : (encodeItems (item :: items)).length < fuel) :
    parseItems fuel (encodeItems (item :: items) ++ 93 :: rest) =
      some (sanitizedItems (item :: items), rest) := by
  cases fuel with
  | zero => exact absurd hfuel (Nat.not_lt_zero _)
  | succ fuel =>
    match items with
    | [] =>
      rw [encodeItems] at hfuel ⊢
      have hitem := parseValue_encode item fuel (93 :: rest) (by omega)
        (ends_cons rfl rest)
      rw [parseItems, hitem]
      rfl
    | next :: items =>
      rw [encodeItems] at hfuel ⊢
      rw [List.length_append, List.length_cons] at hfuel
      have hitem := parseValue_encode item fuel
        (44 :: (encodeItems (next :: items) ++ 93 :: rest)) (by omega)
        (ends_cons rfl _)
      have hitems := parseItems_encode next items fuel rest (by omega)
      rw [List.append_assoc, List.cons_append, parseItems, hitem]
      simp only [Option.bind_eq_bind, Option.bind_some,
        skipSpace_cons (show isSpace 44 = false from rfl), hitems]
      rfl
termination_by fuel

theorem parseFields_encode (field : ByteString × Json) (fields : List (ByteString × Json))
    (fuel : ℕ) (rest : ByteString) (hfuel : (encodeFields (field :: fields)).length < fuel) :
    parseFields fuel (encodeFields (field :: fields) ++ 125 :: rest) =
      some (sanitizedFields (field :: fields), rest) := by
  cases fuel with
  | zero => exact absurd hfuel (Nat.not_lt_zero _)
  | succ fuel =>
    match field, fields with
    | (key, value), [] =>
      rw [encodeFields] at hfuel ⊢
      rw [List.length_append, List.length_cons] at hfuel
      have hvalue := parseValue_encode value fuel (125 :: rest) (by omega)
        (ends_cons rfl rest)
      have hkey := parseText_encodeString key (58 :: (encode value ++ 125 :: rest))
      rw [encodeString]
      simp only [List.append_assoc, List.cons_append, List.nil_append, parseFields,
        skipSpace_cons (show isSpace 34 = false from rfl), hkey, Option.bind_eq_bind,
        Option.bind_some, skipSpace_cons (show isSpace 58 = false from rfl), hvalue]
      rfl
    | (key, value), next :: fields =>
      rw [encodeFields] at hfuel ⊢
      simp only [List.length_append, List.length_cons] at hfuel
      have hvalue := parseValue_encode value fuel
        (44 :: (encodeFields (next :: fields) ++ 125 :: rest)) (by omega)
        (ends_cons rfl _)
      have htags := parseFields_encode next fields fuel rest (by omega)
      have hkey := parseText_encodeString key
        (58 :: (encode value ++ 44 :: (encodeFields (next :: fields) ++ 125 :: rest)))
      rw [encodeString]
      simp only [List.append_assoc, List.cons_append, List.nil_append, parseFields,
        skipSpace_cons (show isSpace 34 = false from rfl), hkey, Option.bind_eq_bind,
        Option.bind_some, skipSpace_cons (show isSpace 58 = false from rfl), hvalue,
        skipSpace_cons (show isSpace 44 = false from rfl), htags]
      rfl
termination_by fuel

end

/-- A written value is read back with every string made well formed. -/
theorem parse_encode (v : Json) : parse (encode v) = some v.sanitized := by
  have hread := parseValue_encode v _ [] (Nat.le_refl _) ends_nil
  rw [List.append_nil] at hread
  rw [parse, hread]
  rfl

end Rhiza.Foundations.Json
