import Rhiza.Foundations.BudgetReader
import Rhiza.Commands.Validate

/-! # Stored results of SQL commands

The format in which the result of a SQL command is kept with its receipt, and its reader. The
writer limits the bytes of a stored result; the reader also meters the memory that the result
takes, with charges of its own.
-/

namespace Rhiza.Materializer

open Foundations
open Commands (maxReturningRows maxSQLStatements)

def maxSQLResultColumns : ℕ := 2000
def maxResultBytes : ℕ := 16 * 2 ^ 20
def maxMutationResultBytes : ℕ := 2 ^ 20
def maxCellBytes : ℕ := 2 ^ 20
def maxSQLColumnCharge : ℕ := 32
def maxSQLStatementCharge : ℕ := 256
def maxSQLRowCharge : ℕ := 64
def maxSQLCellCharge : ℕ := 64

/-- A value of a result row, as the driver returns it; a double is given by its bits. Values
of other types (booleans, times) cannot be stored. -/
inductive Cell where
  | null
  | integer (n : Int64)
  | real (bits : UInt64)
  | text (s : ByteString)
  | blob (b : ByteString)
  | other
  deriving DecidableEq

structure SQLStatementResult where
  columns : List ByteString
  rows : List (List Cell)
  rowsAffected : Int64
  lastInsertID : Int64
  deriving DecidableEq

structure SQLCommandResult where
  statements : List SQLStatementResult
  error : ByteString
  deriving DecidableEq

/-! ## Writing -/

def uint32 (n : ℕ) : ByteString := BigEndian.bytes 4 n
def int64 (n : Int64) : ByteString := BigEndian.bytes 8 n.toUInt64.toNat

def tooLong : String := "stored SQL result exceeds 1048576 bytes"

def writeBytes (value : ByteString) : Write := fun dst => do
  require (¬ (value.length > maxMutationResultBytes - 4 ∨
    dst.length > maxMutationResultBytes - 4 - value.length)) tooLong
  .ok (dst ++ (uint32 value.length ++ value))

/-- A value of a fixed size behind its tag. -/
def writeFixed (bytes : ByteString) : Write := fun dst => do
  require ((dst ++ bytes).length ≤ maxMutationResultBytes) tooLong
  .ok (dst ++ bytes)

def writeSQLValue : Cell → Write
  | .null => writeFixed [0]
  | .integer n => writeFixed (1 :: int64 n)
  | .real bits => writeFixed (2 :: BigEndian.bytes 8 bits.toNat)
  | .text s => fun dst => writeBytes s (dst ++ [3])
  | .blob b => fun dst => writeBytes b (dst ++ [4])
  | .other => fun _ => .error "unsupported SQL result type"

def writeRow (columns : ℕ) (row : List Cell) : Write := fun dst => do
  require (row.length = columns) "invalid cell count"
  row.foldlM (fun dst cell => writeSQLValue cell dst) (dst ++ uint32 row.length)

def writeStatement (statement : SQLStatementResult) : Write := fun dst => do
  require (statement.columns.length ≤ maxSQLResultColumns) "invalid column count"
  require (statement.rows.length ≤ maxReturningRows) "invalid row count"
  let dst ← statement.columns.foldlM (fun dst column => writeBytes column dst)
    (dst ++ (int64 statement.rowsAffected ++ int64 statement.lastInsertID ++
      uint32 statement.columns.length))
  statement.rows.foldlM (fun dst row => writeRow statement.columns.length row dst)
    (dst ++ uint32 statement.rows.length)

def resultMagic : ByteString := bytesOf "RSQL"

def encodeSQLResult (result : SQLCommandResult) : Checked ByteString :=
  if result.statements = [] then
    if result.error ≠ [] then .error "SQL result error without statements" else .ok []
  else do
    require (result.statements.length ≤ maxSQLStatements) "invalid statement count"
    let encoded ← result.statements.foldlM (fun dst statement => writeStatement statement dst)
      (resultMagic ++ uint32 result.statements.length)
    writeBytes result.error encoded

/-! ## Reading -/

def overBudget : String := "stored SQL result exceeds working-memory budget"

def readUint32 (message : String) : Read ℕ := Read.word 4 message

def readUint64 : Read UInt64 := do
  let n ← Read.word 8 "EOF"
  pure (UInt64.ofNat n)

def readInt64 : Read Int64 := do
  let n ← readUint64
  pure n.toInt64

def readBudgetBytes (overhead maximum : ℕ) : Read ByteString := do
  let size ← readUint32 overBudget
  Read.check (size ≤ maximum) overBudget
  Read.spend (size + overhead) overBudget
  Read.take size overBudget

def readByte : Read UInt8 := do
  let s ← Read.take 1 "EOF"
  pure (s.headD 0)

/-- The value behind a tag. -/
def readTagged : UInt8 → Read Cell
  | 0 => do
    Read.spend 65 overBudget
    pure .null
  | 1 => do
    Read.spend 80 overBudget
    let n ← readInt64
    pure (.integer n)
  | 2 => do
    Read.spend 80 overBudget
    let bits ← readUint64
    pure (.real bits)
  | 3 => do
    let s ← readBudgetBytes 0 maxCellBytes
    pure (.text s)
  | 4 => do
    let b ← readBudgetBytes 0 maxCellBytes
    pure (.blob b)
  | _ => throw "invalid SQL result tag"

def readSQLValueBudget : Read Cell := do
  let tag ← readByte
  readTagged tag

def readRow (columns : ℕ) : Read (List Cell) := do
  let cellCount ← readUint32 "invalid cell count"
  Read.check (cellCount = columns) "invalid cell count"
  Read.spendEach cellCount maxSQLCellCharge overBudget
  Read.many cellCount readSQLValueBudget

def readStatement : Read SQLStatementResult := do
  let rowsAffected ← readInt64
  let lastInsertID ← readInt64
  let columnCount ← readUint32 "invalid column count"
  Read.check (columnCount ≤ maxSQLResultColumns) "invalid column count"
  let columns ← Read.many columnCount (readBudgetBytes maxSQLColumnCharge maxMutationResultBytes)
  let rowCount ← readUint32 "invalid row count"
  Read.check (rowCount ≤ maxReturningRows) "invalid row count"
  Read.spendEach rowCount maxSQLRowCharge "invalid row count"
  let rows ← Read.many rowCount (readRow columnCount)
  pure { columns, rows, rowsAffected, lastInsertID }

/-- The charges of the statements are set aside once their number is known. -/
def readResult : Read SQLCommandResult := do
  let magic ← Read.take 4 "invalid result encoding"
  Read.check (magic = resultMagic) "invalid result encoding"
  let count ← readUint32 "invalid statement count"
  Read.check (count ≤ maxSQLStatements) "invalid statement count"
  Read.spend (count * maxSQLStatementCharge) "invalid statement count"
  let statements ← Read.many count readStatement
  let error ← Read.relabel "invalid trailing result data"
    (readBudgetBytes 0 maxMutationResultBytes)
  pure { statements, error }

def decodeSQLResult (encoded : ByteString) : Checked SQLCommandResult := do
  require (encoded.length ≤ maxMutationResultBytes) tooLong
  let (result, _) ← (do
    let result ← readResult
    Read.finish "invalid trailing result data"
    pure result : Read SQLCommandResult) ⟨encoded, maxResultBytes⟩
  .ok result

end Rhiza.Materializer
