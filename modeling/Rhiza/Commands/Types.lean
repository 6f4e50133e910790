import Rhiza.Foundations.Base64
import Rhiza.Foundations.JsonRecord

/-! # Replicated commands

The mutations a server replicates and the JSON they travel in. A Go string is a byte
string of any content; a Go `int` is a 64-bit one. An argument of a statement is a value of
any type the marshaller knows. Entries of a map are listed in the order of their keys, which
is the order the marshaller writes them in.
-/

namespace Rhiza.Commands

open Foundations

/-- The parts of the standard library that stay abstract: the shortest spelling of a double
and its reader, and the lower-case mapping of characters. A double without a spelling is an
infinity or not a number. -/
structure Library where
  Float : Type
  /-- The integer that the double is, if it is one. -/
  integer : Float → Option ℤ
  formatFloat : Float → Option NumberText
  parseFloat : ByteString → Option Float
  parseFloat_nil : parseFloat [] = none
  parseFloat_formatFloat : ∀ {x : Float} {text : NumberText},
    formatFloat x = some text → parseFloat text = some x
  /-- The spelling is a 64-bit integer for the integers strictly between -2^63 and 2^63. From
  2^63 on it is a larger integer, for -2^63 itself -9223372036854776000, and from 1e21 on it
  has an exponent. -/
  parseInt64_formatFloat : ∀ {x : Float} {text : NumberText}, formatFloat x = some text →
    (Decimal.parseInt64? text).isSome = (integer x).any fun z => z.natAbs < 2 ^ 63
  lower : Char → Char

/-- Whether the double is an integer strictly between -2^63 and 2^63. -/
def Library.isInt64 (lib : Library) (x : lib.Float) : Bool :=
  (lib.integer x).any fun z => z.natAbs < 2 ^ 63

namespace Library

/-- The spelling of one half. -/
def halfText : NumberText := ⟨bytesOf "0.5", rfl⟩

/-- The shortest spelling of the double -2^63. -/
def leastText : NumberText := ⟨bytesOf "-9223372036854776000", rfl⟩

/-- The spelling of an integer of 64 bits, and of one half. -/
def spell : Option Int64 → NumberText
  | none => halfText
  | some n =>
    if n = Int64.minValue then leastText
    else ⟨Decimal.formatInt n.toInt, Decimal.validNumber_formatInt n.toInt⟩

def unspell (text : ByteString) : Option (Option Int64) :=
  if text = halfText then some none
  else if text = leastText then some (some Int64.minValue)
  else (Decimal.parseInt64? text).map fun z => some (Int64.ofInt z)

theorem parseInt64_spell (n : Int64) :
    Decimal.parseInt64? (spell (some n)) =
      if n = Int64.minValue then none else some n.toInt := by
  rw [spell]
  split
  · decide +kernel
  · exact Decimal.parseInt64?_formatInt n.le_toInt n.toInt_lt

/-- Doubles cut down to the integers of 64 bits and one half, to evaluate definitions with. -/
def whole : Library where
  Float := Option Int64
  integer x := x.map Int64.toInt
  formatFloat x := some (spell x)
  parseFloat := unspell
  parseFloat_nil := rfl
  parseFloat_formatFloat {x text} h := by
    cases h
    cases x with
    | none => rfl
    | some n =>
      have hparse := parseInt64_spell n
      by_cases hmin : n = Int64.minValue
      · subst hmin
        decide +kernel
      · rw [if_neg hmin] at hparse
        have hne : ∀ other : NumberText, Decimal.parseInt64? other = none →
            (spell (some n) : ByteString) ≠ other := by
          intro other hother heq
          rw [heq, hother] at hparse
          cases hparse
        rw [unspell, if_neg (hne halfText (by decide +kernel)),
          if_neg (hne leastText (by decide +kernel)), hparse, Option.map_some, Int64.ofInt_toInt]
  parseInt64_formatFloat {x text} h := by
    cases h
    cases x with
    | none => decide +kernel
    | some n =>
      rw [parseInt64_spell]
      split
      · next hmin =>
        subst hmin
        decide +kernel
      · next hmin =>
        have hlow := n.le_toInt
        have hhigh := n.toInt_lt
        have hne : n.toInt ≠ -2 ^ 63 := fun heq => hmin (Int64.toInt_inj.mp heq)
        simp only [Option.isSome_some, Option.map_some, Option.any_some]
        symm
        rw [decide_eq_true_eq]
        omega
  lower := Char.toLower

end Library

/-- A statement argument, or a part of one. The marshaller's text is all that is kept of a
single-precision number, which no statement takes. -/
inductive Arg (Float : Type) where
  | nil
  | bool (b : Bool)
  | string (s : ByteString)
  | bytes (b : ByteString)
  | int (n : Int64)
  | uint (n : UInt64)
  | float32 (text : Option NumberText)
  | float (x : Float)
  | number (text : ByteString)
  | list (items : List (Arg Float))
  | map (entries : List (ByteString × Arg Float))

/-- Replaces a null argument by a column of the single row an earlier statement returned. -/
structure SQLStatementOutputRef where
  argIndex : Int64
  statementIndex : Int64
  columnName : ByteString
  columnIndex : Option Int64

structure SQLStatement (Float : Type) where
  sql : ByteString
  args : List (Arg Float)
  wantRows : Bool
  expectedRowsAffected : Option Int64
  expectedReturnedRows : Option Int64
  outputRefs : List SQLStatementOutputRef

structure SQLMigration where
  version : Int64
  name : ByteString
  checksum : ByteString

structure SQLCommand (Float : Type) where
  requestID : ByteString
  sql : ByteString
  args : List (Arg Float)
  wantRows : Bool
  requireOne : Bool
  statements : List (SQLStatement Float)
  migration : Option SQLMigration

structure KVCommand where
  requestID : ByteString
  operation : ByteString
  key : ByteString
  value : ByteString
  expected : ByteString
  expectedExists : Bool
  ttlMS : Int64
  expiresAtUnixMS : Int64
  observedAtUnixMS : Int64

structure NotifyCommand where
  requestID : ByteString
  topic : ByteString
  payload : ByteString

def maxRequestIDBytes : ℕ := 64
def maxSQLCommandsPerDecidedValue : ℕ := 64

/-! ## Writing -/

-- What `omitempty` leaves out.
def omitString (s : ByteString) : Option Json := if s = [] then none else some (.string s)
def omitFalse (b : Bool) : Option Json := if b then some (.bool true) else none
def omitBytes (b : ByteString) : Option Json :=
  if b = [] then none else some (.string (Base64.encode b))
def omitItems (items : List Json) : Option Json := if items = [] then none else some (.array items)

def intJson (n : Int64) : Json :=
  .number ⟨Decimal.formatInt n.toInt, Decimal.validNumber_formatInt n.toInt⟩

def uintJson (n : UInt64) : Json :=
  .number ⟨Decimal.formatInt n.toNat, Decimal.validNumber_formatInt n.toNat⟩

def omitZero (n : Int64) : Option Json := if n = 0 then none else some (intJson n)

/-- A kept spelling; the marshaller writes an empty one as zero and refuses what is no
number. -/
def numberJson (text : ByteString) : Option Json :=
  if text = [] then some (.number ⟨[48], rfl⟩)
  else if h : Decimal.validNumber text = true then some (.number ⟨text, h⟩)
  else none

section SQL

variable (lib : Library)

mutual

def Arg.marshal : Arg lib.Float → Option Json
  | .nil => some .null
  | .bool b => some (.bool b)
  | .string s => some (.string s)
  | .bytes b => some (.string (Base64.encode b))
  | .int n => some (intJson n)
  | .uint n => some (uintJson n)
  | .float32 text => text.map .number
  | .float x => (lib.formatFloat x).map .number
  | .number text => numberJson text
  | .list items => (Arg.marshalItems items).map .array
  | .map entries => (Arg.marshalEntries entries).map .object

def Arg.marshalItems : List (Arg lib.Float) → Option (List Json)
  | [] => some []
  | item :: items => do
    let json ← item.marshal
    let rest ← Arg.marshalItems items
    some (json :: rest)

def Arg.marshalEntries : List (ByteString × Arg lib.Float) → Option (List (ByteString × Json))
  | [] => some []
  | (key, value) :: entries => do
    let json ← value.marshal
    let rest ← Arg.marshalEntries entries
    some ((key, json) :: rest)

end

def blobKey : ByteString := bytesOf "$rhiza_blob"

/-- The argument as a batch carries it: a blob becomes a tagged object. -/
def encodeSQLArg : Arg lib.Float → Option Json
  | .bytes b => some (.object [(blobKey, .string (Base64.encode b))])
  | arg => arg.marshal

def encodeSQLArgs (args : List (Arg lib.Float)) : Option (List Json) :=
  args.mapM (encodeSQLArg lib)

def SQLStatementOutputRef.entries (ref : SQLStatementOutputRef) : Json.Entries :=
  [(bytesOf "arg_index", some (intJson ref.argIndex)),
    (bytesOf "statement_index", some (intJson ref.statementIndex)),
    (bytesOf "column_name", omitString ref.columnName),
    (bytesOf "column_index", ref.columnIndex.map intJson)]

def SQLStatement.entries (statement : SQLStatement lib.Float) (args : List Json) : Json.Entries :=
  [(bytesOf "sql", some (.string statement.sql)),
    (bytesOf "args", omitItems args),
    (bytesOf "want_rows", omitFalse statement.wantRows),
    (bytesOf "expected_rows_affected", statement.expectedRowsAffected.map intJson),
    (bytesOf "expected_returned_rows", statement.expectedReturnedRows.map intJson),
    (bytesOf "output_refs",
      omitItems (statement.outputRefs.map fun ref => .record ref.entries))]

def SQLStatement.marshal (statement : SQLStatement lib.Float) : Option Json :=
  (encodeSQLArgs lib statement.args).map fun args => .record (statement.entries lib args)

def SQLMigration.entries (migration : SQLMigration) : Json.Entries :=
  [(bytesOf "version", some (intJson migration.version)),
    (bytesOf "name", some (.string migration.name)),
    (bytesOf "checksum", some (.string migration.checksum))]

def SQLCommand.entries (command : SQLCommand lib.Float) (args statements : List Json) :
    Json.Entries :=
  [(bytesOf "request_id", some (.string command.requestID)),
    (bytesOf "sql", omitString command.sql),
    (bytesOf "args", omitItems args),
    (bytesOf "want_rows", omitFalse command.wantRows),
    (bytesOf "require_one", omitFalse command.requireOne),
    (bytesOf "statements", omitItems statements),
    (bytesOf "migration", command.migration.map fun migration => .record migration.entries)]

def SQLCommand.marshal (command : SQLCommand lib.Float) : Option Json := do
  let args ← encodeSQLArgs lib command.args
  let statements ← command.statements.mapM (SQLStatement.marshal lib)
  some (.record (command.entries lib args statements))

def encodeSQLBatchItem (command : SQLCommand lib.Float) : Option ByteString :=
  (command.marshal lib).map Json.encode

end SQL

def KVCommand.entries (command : KVCommand) : Json.Entries :=
  [(bytesOf "request_id", some (.string command.requestID)),
    (bytesOf "operation", some (.string command.operation)),
    (bytesOf "key", some (.string command.key)),
    (bytesOf "value", omitBytes command.value),
    (bytesOf "expected", omitBytes command.expected),
    (bytesOf "expected_exists", omitFalse command.expectedExists),
    (bytesOf "ttl_ms", omitZero command.ttlMS),
    (bytesOf "expires_at_unix_ms", omitZero command.expiresAtUnixMS),
    (bytesOf "observed_at_unix_ms", omitZero command.observedAtUnixMS)]

def encodeKVBatchItem (command : KVCommand) : ByteString := (Json.record command.entries).encode

/-- The payload of a publication is copied, which leaves an empty one nil. -/
def NotifyCommand.entries (command : NotifyCommand) : Json.Entries :=
  [(bytesOf "request_id", some (.string command.requestID)),
    (bytesOf "topic", some (.string command.topic)),
    (bytesOf "payload",
      some (if command.payload = [] then .null else .string (Base64.encode command.payload)))]

-- "QBAT" and "QGRB" are closed by the policy version, the other magics by a zero byte.
def sqlBatchMagic : ByteString := bytesOf "QBAT" ++ [7]
def graphBatchMagic : ByteString := bytesOf "QGRB" ++ [7]
def kvCommandMagic : ByteString := bytesOf "QKVC" ++ [0]
def kvBatchMagic : ByteString := bytesOf "QKVB" ++ [0]
def notifyCommandMagic : ByteString := bytesOf "QNTF" ++ [0]

/-- Items joined by commas, within brackets, behind a magic. -/
def assembleBatch (magic : ByteString) (items : List ByteString) : ByteString :=
  magic ++ 91 :: [44].intercalate items ++ [93]

def encodeNotifyCommand (command : NotifyCommand) : ByteString :=
  notifyCommandMagic ++ (Json.record command.entries).encode

end Rhiza.Commands
