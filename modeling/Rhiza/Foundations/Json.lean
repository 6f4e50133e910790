import Rhiza.Foundations.Decimal

/-! # JSON texts

JSON values, the compact text a marshaller writes for them, and a reader of texts. A
string of a value is a byte string of any content. The writer spells the characters that
HTML gives a meaning and the bytes that begin no character as escapes; the reader returns
well-formed strings only. A number is kept as its spelling.
-/

namespace Rhiza.Foundations

open Decimal

/-- The spelling of a JSON number. -/
abbrev NumberText := { text : ByteString // validNumber text = true }

inductive Json where
  | null
  | bool (b : Bool)
  | number (text : NumberText)
  | string (s : ByteString)
  | array (items : List Json)
  | object (fields : List (ByteString × Json))

namespace Json

/-! ## Writing -/

def hexDigit (n : ℕ) : UInt8 := if n < 10 then UInt8.ofNat (48 + n) else UInt8.ofNat (87 + n)

/-- The escape of a code unit. -/
def escapeCode (n : ℕ) : ByteString :=
  [92, 117, hexDigit (n / 4096 % 16), hexDigit (n / 256 % 16), hexDigit (n / 16 % 16),
    hexDigit (n % 16)]

/-- The letter of a two-byte escape. -/
def shortEscape? (n : ℕ) : Option UInt8 :=
  if n = 34 then some 34
  else if n = 92 then some 92
  else if n = 8 then some 98
  else if n = 12 then some 102
  else if n = 10 then some 110
  else if n = 13 then some 114
  else if n = 9 then some 116
  else none

/-- The characters written as a code: control characters, those of HTML, and the line
separators of JavaScript. -/
def coded (n : ℕ) : Bool :=
  n < 32 ∨ n = 60 ∨ n = 62 ∨ n = 38 ∨ n = 0x2028 ∨ n = 0x2029

def encodeChar (c : Char) : ByteString :=
  match shortEscape? c.toNat with
  | some letter => [92, letter]
  | none => if coded c.toNat then escapeCode c.toNat else String.utf8EncodeChar c

/-- A byte that begins no character is written as the bytes of the replacement. -/
def encodeUnit (u : Option Char) : ByteString := encodeChar (u.getD Utf8.replacement)

def encodeString (s : ByteString) : ByteString :=
  34 :: (Utf8.units s).flatMap encodeUnit ++ [34]

mutual

/-- The text of a value. -/
def encode : Json → ByteString
  | .null => [110, 117, 108, 108]
  | .bool true => [116, 114, 117, 101]
  | .bool false => [102, 97, 108, 115, 101]
  | .number text => text
  | .string s => encodeString s
  | .array items => 91 :: encodeItems items ++ [93]
  | .object fields => 123 :: encodeFields fields ++ [125]

def encodeItems : List Json → ByteString
  | [] => []
  | [item] => encode item
  | item :: next :: items => encode item ++ 44 :: encodeItems (next :: items)

def encodeFields : List (ByteString × Json) → ByteString
  | [] => []
  | [(key, value)] => encodeString key ++ 58 :: encode value
  | (key, value) :: next :: fields =>
    encodeString key ++ 58 :: encode value ++ 44 :: encodeFields (next :: fields)

end

/-! ## Reading -/

def isSpace (b : UInt8) : Bool := b = 32 ∨ b = 9 ∨ b = 10 ∨ b = 13

def skipSpace (s : ByteString) : ByteString := s.dropWhile isSpace

/-- A part of a string literal: a byte, or the code unit of an escape. -/
inductive Piece where
  | byte (b : UInt8)
  | code (n : ℕ)

def hexValue? (b : UInt8) : Option ℕ :=
  if 48 ≤ b ∧ b ≤ 57 then some (b.toNat - 48)
  else if 97 ≤ b ∧ b ≤ 102 then some (b.toNat - 87)
  else if 65 ≤ b ∧ b ≤ 70 then some (b.toNat - 55)
  else none

def hexValue4? (a b c d : UInt8) : Option ℕ := do
  let w ← hexValue? a
  let x ← hexValue? b
  let y ← hexValue? c
  let z ← hexValue? d
  some (w * 4096 + x * 256 + y * 16 + z)

/-- The byte a two-byte escape stands for. -/
def unescape? (letter : UInt8) : Option UInt8 :=
  if letter = 34 ∨ letter = 92 ∨ letter = 47 then some letter
  else if letter = 98 then some 8
  else if letter = 102 then some 12
  else if letter = 110 then some 10
  else if letter = 114 then some 13
  else if letter = 116 then some 9
  else none

/-- Reads a string literal after its opening quote, through its closing one. -/
def parsePieces : ByteString → Option (List Piece × ByteString)
  | [] => none
  | 34 :: rest => some ([], rest)
  | 92 :: 117 :: a :: b :: c :: d :: rest => do
    let n ← hexValue4? a b c d
    let (pieces, rest) ← parsePieces rest
    some (.code n :: pieces, rest)
  | 92 :: letter :: rest => do
    let b ← unescape? letter
    let (pieces, rest) ← parsePieces rest
    some (.byte b :: pieces, rest)
  | b :: rest => do
    if b < 32 ∨ b = 92 then none
    else
      let (pieces, rest) ← parsePieces rest
      some (.byte b :: pieces, rest)

/-- The character of a code unit; a surrogate has none. -/
def charOf (n : ℕ) : Char := if n.isValidChar then Char.ofNat n else Utf8.replacement

def highSurrogate (n : ℕ) : Bool := 0xD800 ≤ n ∧ n < 0xDC00
def lowSurrogate (n : ℕ) : Bool := 0xDC00 ≤ n ∧ n < 0xE000

/-- The bytes of a literal's parts. A surrogate pair stands for one character. -/
def render : List Piece → ByteString
  | [] => []
  | .byte b :: pieces => b :: render pieces
  | .code n :: .code m :: pieces =>
    if highSurrogate n ∧ lowSurrogate m then
      String.utf8EncodeChar (charOf (0x10000 + (n - 0xD800) * 1024 + (m - 0xDC00))) ++
        render pieces
    else String.utf8EncodeChar (charOf n) ++ render (.code m :: pieces)
  | .code n :: pieces => String.utf8EncodeChar (charOf n) ++ render pieces

/-- Reads a string after its opening quote. -/
def parseText (s : ByteString) : Option (ByteString × ByteString) :=
  (parsePieces s).map fun (pieces, rest) => (Utf8.sanitize (render pieces), rest)

def parseNumber (s : ByteString) : Option (Json × ByteString) :=
  if h : validNumber (s.takeWhile numberByte) = true then
    some (.number ⟨s.takeWhile numberByte, h⟩, s.dropWhile numberByte)
  else none

def parseScalar : ByteString → Option (Json × ByteString)
  | 110 :: 117 :: 108 :: 108 :: rest => some (.null, rest)
  | 116 :: 114 :: 117 :: 101 :: rest => some (.bool true, rest)
  | 102 :: 97 :: 108 :: 115 :: 101 :: rest => some (.bool false, rest)
  | s => parseNumber s

mutual

/-- Reads one value; the fuel bounds the length of its text. -/
def parseValue : ℕ → ByteString → Option (Json × ByteString)
  | 0, _ => none
  | fuel + 1, s =>
    match skipSpace s with
    | 34 :: rest => (parseText rest).map fun (text, rest) => (.string text, rest)
    | 91 :: rest =>
      match skipSpace rest with
      | 93 :: rest => some (.array [], rest)
      | rest => (parseItems fuel rest).map fun (items, rest) => (.array items, rest)
    | 123 :: rest =>
      match skipSpace rest with
      | 125 :: rest => some (.object [], rest)
      | rest => (parseFields fuel rest).map fun (fields, rest) => (.object fields, rest)
    | s => parseScalar s

def parseItems : ℕ → ByteString → Option (List Json × ByteString)
  | 0, _ => none
  | fuel + 1, s => do
    let (item, rest) ← parseValue fuel s
    match skipSpace rest with
    | 44 :: rest =>
      let (items, rest) ← parseItems fuel rest
      some (item :: items, rest)
    | 93 :: rest => some ([item], rest)
    | _ => none

def parseFields : ℕ → ByteString → Option (List (ByteString × Json) × ByteString)
  | 0, _ => none
  | fuel + 1, s =>
    match skipSpace s with
    | 34 :: rest => do
      let (key, rest) ← parseText rest
      match skipSpace rest with
      | 58 :: rest =>
        let (value, rest) ← parseValue fuel rest
        match skipSpace rest with
        | 44 :: rest =>
          let (fields, rest) ← parseFields fuel rest
          some ((key, value) :: fields, rest)
        | 125 :: rest => some ([(key, value)], rest)
        | _ => none
      | _ => none
    | _ => none

end

/-- Reads a text that holds one value and nothing else. -/
def parse (s : ByteString) : Option Json :=
  match parseValue s.length s with
  | some (value, rest) => if skipSpace rest = [] then some value else none
  | none => none

mutual

/-- The value a reader of the text obtains: every string made well formed. -/
def sanitized : Json → Json
  | .null => .null
  | .bool b => .bool b
  | .number text => .number text
  | .string s => .string (Utf8.sanitize s)
  | .array items => .array (sanitizedItems items)
  | .object fields => .object (sanitizedFields fields)

def sanitizedItems : List Json → List Json
  | [] => []
  | item :: items => item.sanitized :: sanitizedItems items

def sanitizedFields : List (ByteString × Json) → List (ByteString × Json)
  | [] => []
  | (key, value) :: fields => (Utf8.sanitize key, value.sanitized) :: sanitizedFields fields

end

theorem sanitizedItems_eq_map (items : List Json) : sanitizedItems items = items.map sanitized := by
  induction items with
  | nil => rfl
  | cons item items ih => rw [sanitizedItems, ih, List.map_cons]

theorem sanitizedFields_eq_map (fields : List (ByteString × Json)) :
    sanitizedFields fields =
      fields.map fun field => (Utf8.sanitize field.1, field.2.sanitized) := by
  induction fields with
  | nil => rfl
  | cons field fields ih => rw [sanitizedFields, ih, List.map_cons]

end Json

end Rhiza.Foundations
