import Rhiza.Commands.Types
import Rhiza.Foundations.Check

/-! # Lexical checks of SQL texts

The scanners the argument checks run over a statement's text. They read bytes; only the
trimming of spaces and the search for the reserved namespace read characters.
-/

namespace Rhiza.Commands

open Foundations

/-! ## Spaces -/

/-- The characters Unicode counts as spaces. -/
def isSpaceChar (c : Char) : Bool :=
  let n := c.toNat
  (9 ≤ n ∧ n ≤ 13) ∨ n = 32 ∨ n = 0x85 ∨ n = 0xA0 ∨ n = 0x1680 ∨ (0x2000 ≤ n ∧ n ≤ 0x200A) ∨
    n = 0x2028 ∨ n = 0x2029 ∨ n = 0x202F ∨ n = 0x205F ∨ n = 0x3000

theorem length_drop_utf8Size_lt (c : Char) (b : UInt8) (s : ByteString) :
    ((b :: s).drop c.utf8Size).length < (b :: s).length := by
  have hpos := c.utf8Size_pos
  simp only [List.length_drop, List.length_cons]
  omega

/-- Without the spaces at the front. -/
def trimLeft : ByteString → ByteString
  | [] => []
  | b :: s =>
    match Utf8.decodeChar? (b :: s) with
    | some c => if isSpaceChar c then trimLeft ((b :: s).drop c.utf8Size) else b :: s
    | none => b :: s
termination_by s => s.length
decreasing_by exact length_drop_utf8Size_lt c b s

/-- Without the spaces at the end. -/
def trimRight : ByteString → ByteString
  | [] => []
  | b :: s =>
    match Utf8.decodeChar? (b :: s) with
    | some c =>
      let rest := trimRight ((b :: s).drop c.utf8Size)
      if isSpaceChar c ∧ rest = [] then [] else String.utf8EncodeChar c ++ rest
    | none => b :: trimRight s
termination_by s => s.length
decreasing_by
  · exact length_drop_utf8Size_lt c b s
  · exact Nat.lt_succ_self s.length

def trimSpace (s : ByteString) : ByteString := trimRight (trimLeft s)

theorem drop_utf8Size (c : Char) (s : ByteString) :
    (String.utf8EncodeChar c ++ s).drop c.utf8Size = s :=
  List.drop_left' (String.length_utf8EncodeChar c)

@[simp] theorem trimLeft_nil : trimLeft [] = [] := by rw [trimLeft]

theorem trimLeft_char (c : Char) (s : ByteString) :
    trimLeft (String.utf8EncodeChar c ++ s) =
      if isSpaceChar c then trimLeft s else String.utf8EncodeChar c ++ s := by
  have hgot := Utf8.decodeChar?_encode_append c s
  have hdrop := drop_utf8Size c s
  obtain ⟨b, bytes, hbytes⟩ := List.exists_cons_of_ne_nil (String.utf8EncodeChar_ne_nil (c := c))
  rw [hbytes, List.cons_append] at hgot hdrop ⊢
  rw [trimLeft, hgot]
  simp only [hdrop]

variable {b : UInt8} {s : ByteString}

theorem trimLeft_invalid (h : Utf8.decodeChar? (b :: s) = none) : trimLeft (b :: s) = b :: s := by
  rw [trimLeft, h]

@[simp] theorem trimRight_nil : trimRight [] = [] := by rw [trimRight]

theorem trimRight_char (c : Char) (s : ByteString) :
    trimRight (String.utf8EncodeChar c ++ s) =
      if isSpaceChar c ∧ trimRight s = [] then [] else String.utf8EncodeChar c ++ trimRight s := by
  have hgot := Utf8.decodeChar?_encode_append c s
  have hdrop := drop_utf8Size c s
  cases hbytes : String.utf8EncodeChar c with
  | nil => exact absurd hbytes String.utf8EncodeChar_ne_nil
  | cons =>
    rw [hbytes, List.cons_append] at hgot hdrop
    rw [List.cons_append, trimRight, hgot]
    simp only [hdrop, hbytes]

theorem trimRight_invalid (h : Utf8.decodeChar? (b :: s) = none) :
    trimRight (b :: s) = b :: trimRight s := by
  rw [trimRight, h]

/-! ## Skipping quotes and comments -/

/-- What follows a quoted text, read after its opening quote. A doubled quote stays inside. -/
def skipQuoted (quote : UInt8) : ByteString → ByteString
  | [] => []
  | [_] => []
  | b :: c :: rest =>
    if b = quote then if c = quote then skipQuoted quote rest else c :: rest
    else skipQuoted quote (c :: rest)

/-- What follows the first such byte; nothing when there is none. -/
def skipPast (close : UInt8) (s : ByteString) : ByteString := (s.dropWhile (· ≠ close)).drop 1

def skipLine (s : ByteString) : ByteString := s.dropWhile (· ≠ 10)

/-- What follows a block comment. An open one leaves its last byte to the scanner. -/
def skipBlock : ByteString → ByteString
  | [] => []
  | [b] => [b]
  | b :: c :: rest => if b = 42 ∧ c = 47 then rest else skipBlock (c :: rest)

/-- What follows the end of a block comment, if it ends. -/
def afterBlock? : ByteString → Option ByteString
  | b :: c :: rest => if b = 42 ∧ c = 47 then some rest else afterBlock? (c :: rest)
  | _ => none

def afterLine? : ByteString → Option ByteString
  | [] => none
  | b :: rest => if b = 10 then some rest else afterLine? rest

theorem length_skipQuoted_le (quote : UInt8) (s : ByteString) :
    (skipQuoted quote s).length ≤ s.length := by
  induction s using skipQuoted.induct quote with
  | case1 => exact Nat.le_refl _
  | case2 => exact Nat.zero_le _
  | case3 =>
    simp only [skipQuoted, if_true, List.length_cons]
    omega
  | case4 c rest hc =>
    simp only [skipQuoted, hc, if_true, if_false, List.length_cons]
    omega
  | case5 b c rest hb ih =>
    simp only [skipQuoted, hb, if_false, List.length_cons] at ih ⊢
    omega

theorem length_dropWhile_le (p : UInt8 → Bool) (s : ByteString) :
    (s.dropWhile p).length ≤ s.length :=
  (List.dropWhile_suffix p).length_le

theorem length_skipPast_le (close : UInt8) (s : ByteString) :
    (skipPast close s).length ≤ s.length := by
  rw [skipPast, List.length_drop]
  exact Nat.le_trans (Nat.sub_le _ _) (length_dropWhile_le _ s)

theorem length_skipLine_le (s : ByteString) : (skipLine s).length ≤ s.length :=
  length_dropWhile_le _ s

theorem length_skipBlock_le (s : ByteString) : (skipBlock s).length ≤ s.length := by
  induction s using skipBlock.induct with
  | case1 | case2 => exact Nat.le_refl _
  | case3 b c rest h =>
    simp only [skipBlock, h, and_self, if_true, List.length_cons]
    omega
  | case4 b c rest h ih =>
    simp only [skipBlock, h, if_false, List.length_cons] at ih ⊢
    omega

theorem length_afterBlock?_lt {rest : ByteString} (h : afterBlock? s = some rest) :
    rest.length < s.length := by
  induction s using afterBlock?.induct with
  | case1 b c tail hend =>
    simp only [afterBlock?, hend, and_self, if_true, Option.some.injEq] at h
    simp only [h, List.length_cons]
    omega
  | case2 b c tail hend ih =>
    simp only [afterBlock?, hend, if_false] at h
    exact Nat.lt_succ_of_lt (ih h)
  | case3 s hshort =>
    rw [afterBlock?.eq_2 s hshort] at h
    exact absurd h nofun

theorem length_afterLine?_lt {rest : ByteString} (h : afterLine? s = some rest) :
    rest.length < s.length := by
  induction s with
  | nil => exact absurd h nofun
  | cons b s ih =>
    rw [afterLine?] at h
    split at h
    · cases h
      exact Nat.lt_succ_self _
    · exact Nat.lt_succ_of_lt (ih h)

/-! ## Positional parameters -/

def startsWith (p : UInt8 → Bool) (s : ByteString) : Bool := s.head?.any p

def isLetter (b : UInt8) : Bool := (65 ≤ b ∧ b ≤ 90) ∨ (97 ≤ b ∧ b ≤ 122)

/-- Counts the unnumbered parameters of a statement outside quotes and comments. -/
def countPlainParameters : ByteString → Checked ℕ
  | [] => .ok 0
  | c :: rest =>
    -- A text in single, double or back quotes, then one in brackets.
    if c = 39 ∨ c = 34 ∨ c = 96 then countPlainParameters (skipQuoted c rest)
    else if c = 91 then countPlainParameters (skipPast 93 rest)
    -- A line comment and a block comment.
    else if c = 45 ∧ startsWith (· = 45) rest then countPlainParameters (skipLine (rest.drop 1))
    else if c = 47 ∧ startsWith (· = 42) rest then countPlainParameters (skipBlock (rest.drop 1))
    else if c = 63 then
      if startsWith Decimal.isDigit rest then
        .error "output references require unnumbered ? parameters"
      else (· + 1) <$> countPlainParameters rest
    -- A colon, an at sign or a dollar sign.
    else if (c = 58 ∨ c = 64 ∨ c = 36) ∧ startsWith (fun b => b = 95 ∨ isLetter b) rest then
      .error "output references do not support named parameters"
    else countPlainParameters rest
termination_by s => s.length
decreasing_by
  · exact Nat.lt_succ_of_le (length_skipQuoted_le _ _)
  · exact Nat.lt_succ_of_le (length_skipPast_le _ _)
  · exact Nat.lt_succ_of_le (Nat.le_trans (length_skipLine_le _) (by simp))
  · exact Nat.lt_succ_of_le (Nat.le_trans (length_skipBlock_le _) (by simp))
  · exact Nat.lt_succ_self _
  · exact Nat.lt_succ_self _

/-! ## The leading keyword -/

theorem length_trimLeft_le (s : ByteString) : (trimLeft s).length ≤ s.length := by
  induction s using Utf8.unitsInduction with
  | nil => simp
  | char =>
    rw [trimLeft_char]
    split
    · rw [List.length_append]
      omega
    · exact Nat.le_refl _
  | invalid b s h _ => rw [trimLeft_invalid h]

theorem length_trimRight_le (s : ByteString) : (trimRight s).length ≤ s.length := by
  induction s using Utf8.unitsInduction with
  | nil => simp
  | char =>
    rw [trimRight_char]
    split
    · exact Nat.zero_le _
    · simp only [List.length_append]
      omega
  | invalid b s h ih =>
    rw [trimRight_invalid h]
    exact Nat.succ_le_succ ih

theorem length_trimSpace_le (s : ByteString) : (trimSpace s).length ≤ s.length :=
  Nat.le_trans (length_trimRight_le _) (length_trimLeft_le s)

/-- The text behind the leading comments; nothing when a comment does not end. -/
def skipComments (query : ByteString) : Option ByteString :=
  match _h : trimSpace query with
  | 45 :: 45 :: rest =>
    match _htail : afterLine? rest with
    | some tail => skipComments tail
    | none => none
  | 47 :: 42 :: rest =>
    match _htail : afterBlock? rest with
    | some tail => skipComments tail
    | none => none
  | trimmed => some trimmed
termination_by query.length
decreasing_by
  · have htrim := length_trimSpace_le query
    have htail := length_afterLine?_lt _htail
    simp only [_h, List.length_cons] at htrim
    omega
  · have htrim := length_trimSpace_le query
    have htail := length_afterBlock?_lt _htail
    simp only [_h, List.length_cons] at htrim
    omega

def upperByte (b : UInt8) : UInt8 := if 97 ≤ b ∧ b ≤ 122 then b - 32 else b
def lowerByte (b : UInt8) : UInt8 := if 65 ≤ b ∧ b ≤ 90 then b + 32 else b

def firstSQLKeyword (query : ByteString) : ByteString :=
  match skipComments query with
  | some text => (text.takeWhile fun b => isLetter b ∨ b = 95).map upperByte
  | none => []

/-! ## The temporary schema -/

structure SQLPolicyToken where
  text : ByteString
  bare : Bool
  symbol : Bool

/-- A quoted text and what follows it, read after the opening quote. A bracket is not
doubled. -/
def quotedText (close : UInt8) : ByteString → Option (ByteString × ByteString)
  | [] => none
  | [b] => if b = close then some ([], []) else none
  | b :: c :: rest =>
    if b = close then
      if close ≠ 93 ∧ c = close then
        (quotedText close rest).map fun (text, tail) => (close :: text, tail)
      else some ([], c :: rest)
    else (quotedText close (c :: rest)).map fun (text, tail) => (b :: text, tail)

def sqlNameByte (b : UInt8) : Bool :=
  b = 95 ∨ isLetter b ∨ Decimal.isDigit b ∨ 128 ≤ b ∨ b = 36

/-- What follows a parameter introduced by `c`. All but the question mark may carry a
parenthesised suffix. -/
def afterParameter (c : UInt8) (rest : ByteString) : ByteString :=
  let tail := rest.dropWhile fun b => sqlNameByte b ∨ b = 58
  if c ≠ 63 ∧ startsWith (· = 40) tail then skipPast 41 tail else tail

def byteOrderMark : ByteString := [0xEF, 0xBB, 0xBF]

theorem length_quotedText_lt {close : UInt8} {text tail : ByteString}
    (h : quotedText close s = some (text, tail)) : tail.length < s.length := by
  induction s using quotedText.induct close generalizing text tail with
  | case1 => exact absurd h nofun
  | case2 =>
    simp only [quotedText, if_true, Option.some.injEq, Prod.mk.injEq] at h
    simp [← h.2]
  | case3 b hb =>
    simp [quotedText, hb] at h
  | case4 c rest hdouble ih =>
    rw [quotedText, if_pos rfl, if_pos hdouble, Option.map_eq_some_iff] at h
    obtain ⟨⟨text', tail'⟩, hread, heq⟩ := h
    obtain ⟨-, rfl⟩ := Prod.mk.inj heq
    exact Nat.lt_succ_of_lt (Nat.lt_succ_of_lt (ih hread))
  | case5 c rest hdouble =>
    simp only [quotedText, hdouble, if_true, if_false, Option.some.injEq, Prod.mk.injEq] at h
    rw [← h.2]
    exact Nat.lt_succ_self _
  | case6 b c rest hb ih =>
    simp only [quotedText, hb, if_false, Option.map_eq_some_iff] at h
    obtain ⟨⟨text', tail'⟩, hread, heq⟩ := h
    obtain ⟨-, rfl⟩ := Prod.mk.inj heq
    exact Nat.lt_succ_of_lt (ih hread)

theorem length_afterParameter_le (c : UInt8) (rest : ByteString) :
    (afterParameter c rest).length ≤ rest.length := by
  rw [afterParameter]
  split
  · exact Nat.le_trans (length_skipPast_le _ _) (length_dropWhile_le _ _)
  · exact length_dropWhile_le _ _

/-- A lexical guard, not a parser: quoted names and literals stay whole. -/
def sqlPolicyTokens : ByteString → Checked (List SQLPolicyToken)
  | [] => .ok []
  | c :: rest =>
    if c = 32 ∨ c = 9 ∨ c = 13 ∨ c = 10 ∨ c = 12 ∨ c = 11 then sqlPolicyTokens rest
    else if byteOrderMark.isPrefixOf (c :: rest) then sqlPolicyTokens (rest.drop 2)
    else if c = 45 ∧ startsWith (· = 45) rest then sqlPolicyTokens (skipLine (rest.drop 1))
    else if c = 47 ∧ startsWith (· = 42) rest then
      match _h : afterBlock? (rest.drop 1) with
      | none => .ok []
      | some tail => sqlPolicyTokens tail
    else if c = 39 ∨ c = 34 ∨ c = 96 ∨ c = 91 then
      match _h : quotedText (if c = 91 then 93 else c) rest with
      | none => .error "unterminated SQL quote"
      | some (text, tail) => do
        let tokens ← sqlPolicyTokens tail
        .ok (⟨text, false, false⟩ :: tokens)
    else if c = 63 ∨ c = 58 ∨ c = 64 ∨ c = 36 ∨ c = 35 then do
      let tokens ← sqlPolicyTokens (afterParameter c rest)
      .ok (⟨[63], false, false⟩ :: tokens)
    else if sqlNameByte c then do
      let tokens ← sqlPolicyTokens (rest.dropWhile sqlNameByte)
      .ok (⟨c :: rest.takeWhile sqlNameByte, true, false⟩ :: tokens)
    else do
      let tokens ← sqlPolicyTokens rest
      .ok (⟨[c], false, true⟩ :: tokens)
termination_by s => s.length
decreasing_by
  · exact Nat.lt_succ_self _
  · exact Nat.lt_succ_of_le (by simp)
  · exact Nat.lt_succ_of_le (Nat.le_trans (length_skipLine_le _) (by simp))
  · have htail := length_afterBlock?_lt _h
    simp only [List.length_drop, List.length_cons] at htail ⊢
    omega
  · exact Nat.lt_succ_of_lt (length_quotedText_lt _h)
  · exact Nat.lt_succ_of_le (length_afterParameter_le _ _)
  · exact Nat.lt_succ_of_le (length_dropWhile_le _ _)
  · exact Nat.lt_succ_self _

/-- Equality up to the case of ASCII letters. None of the words it is used with has a letter
that folds outside ASCII. -/
def equalFold (text word : ByteString) : Bool := text.map lowerByte = word.map lowerByte

def SQLPolicyToken.creates (token : SQLPolicyToken) : Bool :=
  token.bare ∧ equalFold token.text (bytesOf "CREATE")

def SQLPolicyToken.temporary (token : SQLPolicyToken) : Bool :=
  token.bare ∧ (equalFold token.text (bytesOf "TEMP") ∨ equalFold token.text (bytesOf "TEMPORARY"))

def SQLPolicyToken.qualifies (token : SQLPolicyToken) : Bool :=
  equalFold token.text (bytesOf "temp")

def SQLPolicyToken.dot (token : SQLPolicyToken) : Bool := token.symbol ∧ token.text = [46]

def checkTempTokens : List SQLPolicyToken → Checked Unit
  | [] => .ok ()
  | token :: tokens => do
    require (¬ (token.creates ∧ tokens.head?.any SQLPolicyToken.temporary))
      "TEMP objects are not allowed on the replicated write API"
    require (¬ (token.qualifies ∧ tokens.head?.any SQLPolicyToken.dot))
      "temp qualifiers are not allowed on the replicated write API"
    checkTempTokens tokens

def validateReplicatedTempSQL (query : ByteString) : Checked Unit := do
  let tokens ← sqlPolicyTokens query
  checkTempTokens tokens

/-! ## The reserved namespace -/

def toLower (lib : Library) (query : ByteString) : ByteString :=
  (Utf8.units query).flatMap fun u =>
    String.utf8EncodeChar (lib.lower (u.getD Utf8.replacement))

def validatePublicSQL (lib : Library) (query : ByteString) : Checked Unit :=
  require (¬ bytesOf "_rhiza_" <:+: toLower lib query) "the _rhiza_ namespace is reserved"

end Rhiza.Commands
