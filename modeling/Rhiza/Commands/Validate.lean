import Rhiza.Commands.Decode
import Rhiza.Commands.SQLText

/-! # The checks of a replicated SQL command

The checks run once when a command is submitted and once more on the decoded command when
its slot is applied. A command that lists statements is checked statement by statement;
its own text and arguments are then not looked at.
-/

namespace Rhiza.Commands

open Foundations

def maxSQLBytes : ℕ := 256 * 1024
def maxSQLStatements : ℕ := 64
def maxSQLArgs : ℕ := 999
def maxReturningRows : ℕ := 10000

variable (lib : Library)

def Arg.isNil : Arg lib.Float → Bool
  | .nil => true
  | _ => false

def isHex (b : UInt8) : Bool :=
  Decimal.isDigit b ∨ (97 ≤ b ∧ b ≤ 102) ∨ (65 ≤ b ∧ b ≤ 70)

def validateMigration (command : SQLCommand lib.Float) : Checked Unit :=
  match command.migration with
  | none => .ok ()
  | some migration => do
    require (command.sql = [] ∧ command.args.length = 0 ∧ command.wantRows = false ∧
      0 < migration.version ∧ migration.name ≠ [] ∧ migration.checksum.length = 64)
      "invalid migration command"
    require (migration.checksum.all isHex = true) "invalid migration checksum"

/-- The statements the command runs. -/
def SQLCommand.effective (command : SQLCommand lib.Float) : List (SQLStatement lib.Float) :=
  if command.statements = [] then
    [{ sql := command.sql, args := command.args, wantRows := command.wantRows
       expectedRowsAffected := none, expectedReturnedRows := none, outputRefs := [] }]
  else command.statements

def argAt (args : List (Arg lib.Float)) (index : Int64) : Option (Arg lib.Float) :=
  if 0 ≤ index then args[index.toInt.toNat]? else none

/-- An output reference, given the arguments other references already replace. -/
def validateOutputRef (earlier : List (SQLStatement lib.Float))
    (statement : SQLStatement lib.Float) (seen : List Int64) (ref : SQLStatementOutputRef) :
    Checked Unit := do
  require ((argAt lib statement.args ref.argIndex).isSome)
    "output reference argument index is out of bounds"
  require ((argAt lib statement.args ref.argIndex).any (Arg.isNil lib))
    "output reference argument must be null"
  require (ref.argIndex ∉ seen) "duplicate output reference argument index"
  require (0 ≤ ref.statementIndex ∧
    (earlier[ref.statementIndex.toInt.toNat]?).any SQLStatement.wantRows)
    "output reference must target an earlier row-returning statement"
  require ((ref.columnName = []) ≠ (ref.columnIndex = none))
    "output reference requires exactly one column name or index"
  require (ref.columnIndex.all (0 ≤ ·)) "output reference column index is out of bounds"

def validateOutputRefs (earlier : List (SQLStatement lib.Float))
    (statement : SQLStatement lib.Float) :
    List Int64 → List SQLStatementOutputRef → Checked Unit
  | _, [] => .ok ()
  | seen, ref :: refs => do
    validateOutputRef lib earlier statement seen ref
    validateOutputRefs earlier statement (ref.argIndex :: seen) refs

/-- The counts a statement expects. -/
def validateExpectations (statement : SQLStatement lib.Float) : Checked Unit := do
  require (statement.expectedRowsAffected = none ∨ statement.wantRows = false)
    "expected_rows_affected is not valid for a row-returning statement"
  require (statement.expectedRowsAffected.all (0 ≤ ·))
    "expected_rows_affected must not be negative"
  require (statement.expectedReturnedRows = none ∨ statement.wantRows = true)
    "expected_returned_rows requires want_rows"
  require (statement.expectedReturnedRows.all fun n => 0 ≤ n ∧ n.toInt ≤ (maxReturningRows : ℤ))
    "expected_returned_rows must be between 0 and 10000"

/-- Output references need a plain parameter for every argument. -/
def validateParameters (statement : SQLStatement lib.Float) : Checked Unit :=
  if statement.outputRefs = [] then .ok ()
  else do
    let count ← countPlainParameters statement.sql
    require (count = statement.args.length)
      "output references require one argument for every positional parameter"

def validateArgs : List (Arg lib.Float) → Checked Unit
  | [] => .ok ()
  | arg :: args => do
    let _ ← sqlArg lib arg
    validateArgs args

def forbiddenKeywords : List ByteString :=
  [bytesOf "PRAGMA", bytesOf "ATTACH", bytesOf "DETACH", bytesOf "VACUUM", bytesOf "BEGIN",
    bytesOf "COMMIT", bytesOf "ROLLBACK", bytesOf "SAVEPOINT", bytesOf "RELEASE"]

def validateKeyword (query : ByteString) : Checked Unit := do
  require (firstSQLKeyword query ≠ []) "SQL statement has no valid leading keyword"
  require (firstSQLKeyword query ∉ forbiddenKeywords)
    "keyword is not allowed on the replicated write API"

/-- One statement, given the statements before it. -/
def validateStatement (migration : Bool) (earlier : List (SQLStatement lib.Float))
    (statement : SQLStatement lib.Float) : Checked Unit := do
  require (trimSpace statement.sql ≠ []) "SQL is required"
  require (0 ∉ statement.sql) "SQL contains a null byte"
  require (statement.sql.length ≤ maxSQLBytes) "SQL exceeds 262144 bytes"
  require (statement.outputRefs.length ≤ maxSQLArgs) "SQL has more than 999 output references"
  require (¬ (migration ∧ (statement.args.length ≠ 0 ∨ statement.wantRows ∨
    statement.expectedRowsAffected ≠ none ∨ statement.expectedReturnedRows ≠ none ∨
    statement.outputRefs.length ≠ 0)))
    ("migration statements do not support arguments, returned rows, preconditions, " ++
      "or output references")
  validateExpectations lib statement
  validateParameters lib statement
  validateOutputRefs lib earlier statement [] statement.outputRefs
  require (statement.args.length ≤ maxSQLArgs) "SQL has more than 999 arguments"
  validateReplicatedTempSQL statement.sql
  validatePublicSQL lib statement.sql
  validateArgs lib statement.args
  validateKeyword statement.sql

def validateStatements (migration : Bool) :
    List (SQLStatement lib.Float) → List (SQLStatement lib.Float) → Checked Unit
  | _, [] => .ok ()
  | earlier, statement :: rest => do
    validateStatement lib migration earlier statement
    validateStatements migration (earlier ++ [statement]) rest

def validateSQLCommand (command : SQLCommand lib.Float) : Checked Unit := do
  require (command.requestID.length ≤ maxRequestIDBytes) "request_id must not exceed 64 bytes"
  require (¬ (command.requireOne ∧ (command.wantRows = false ∨ command.statements.length ≠ 0)))
    "require_one is only valid for one row-returning statement"
  validateMigration lib command
  require ((command.effective lib).length ≤ maxSQLStatements)
    "statement count must be between 1 and 64"
  validateStatements lib command.migration.isSome [] (command.effective lib)

theorem validateArgs_eq_ok {args : List (Arg lib.Float)} :
    validateArgs lib args = .ok () ↔ ∀ arg ∈ args, ∃ value, sqlArg lib arg = .ok value := by
  induction args with
  | nil => simp [validateArgs]
  | cons arg args ih => simp [validateArgs, ih]

end Rhiza.Commands
