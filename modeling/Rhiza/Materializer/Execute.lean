import Rhiza.Materializer.Result

/-! # Executing SQL commands

How the result of a SQL command is collected. The database behind it is a parameter: it
binds the arguments and the references to earlier results, runs one statement, and returns
rows of cells, or the rows a statement changed. The collector meters what it keeps.
-/

namespace Rhiza.Materializer

open Foundations Commands

/-- Why a command is not executed: the connection's policy state is lost, a stated
expectation failed, or anything else. -/
inductive ExecuteFailure where
  | policyState
  | precondition (message : String)
  | execution (message : String)

/-- Fails unless the condition holds. -/
def demand (condition : Prop) [Decidable condition] (failure : ExecuteFailure) :
    Except ExecuteFailure Unit :=
  if condition then .ok () else .error failure

theorem demand_bind {condition : Prop} [Decidable condition] (h : condition)
    (failure : ExecuteFailure) {α : Type} (next : Unit → Except ExecuteFailure α) :
    (demand condition failure >>= next) = next () := by
  rw [demand, if_pos h]
  rfl

/-- The rows a query returns, under their columns. -/
structure Rows where
  columns : List ByteString
  rows : List (List Cell)

/-- The rows a statement changed, and the row id it inserted last. -/
structure Changes where
  rowsAffected : Int64
  lastInsertID : Int64

/-- A SQL database. Statements also see the results of the command so far, which their output
references name. Recording a migration tells whether it was applied before. -/
structure Engine (Float : Type) where
  Database : Type
  migrate : Database → SQLMigration → Except ExecuteFailure (Bool × Database)
  query : Database → List SQLStatementResult → SQLStatement Float →
    Except ExecuteFailure (Rows × Database)
  exec : Database → List SQLStatementResult → SQLStatement Float →
    Except ExecuteFailure (Changes × Database)

/-- What the results of a command may still take, and what its output references have taken. -/
structure ResultBudget where
  rows : ℕ
  bytes : ℤ
  resolvedBytes : ℕ

def sqlValueSize : Cell → ℕ
  | .text s => s.length
  | .blob b => b.length
  | .null => 1
  | .integer _ | .real _ | .other => 16

def exceeds : ExecuteFailure := .execution "result exceeds 16777216 bytes"

/-- Charges the cells of a row. -/
def collectCells : List Cell → ℤ → Except ExecuteFailure ℤ
  | [], bytes => .ok bytes
  | cell :: cells, bytes => do
    demand (sqlValueSize cell ≤ maxCellBytes) (.execution "result cell exceeds 1048576 bytes")
    demand (0 ≤ bytes - sqlValueSize cell) exceeds
    collectCells cells (bytes - sqlValueSize cell)

/-- Collects the rows after those collected before. -/
def collectRows (columns : ℕ) (expectedRows : Option Int64) :
    ℕ → List (List Cell) → ResultBudget → Except ExecuteFailure ResultBudget
  | _, [], budget => .ok budget
  | collected, row :: rows, budget => do
    demand (expectedRows.all (·.toInt ≠ (collected : ℤ)))
      (.precondition "statement returned more rows than expected")
    demand (budget.rows ≠ 0) (.execution "result exceeds 10000 rows")
    let rowCharge := maxSQLRowCharge + columns * maxSQLCellCharge
    demand ((rowCharge : ℤ) ≤ budget.bytes)
      (.execution "result exceeds 16777216 bytes of working memory")
    demand (row.length = columns) (.execution "sql: wrong number of destination arguments")
    let bytes ← collectCells row (budget.bytes - rowCharge)
    collectRows columns expectedRows (collected + 1) rows
      { budget with rows := budget.rows - 1, bytes }

theorem collectCells_eq_ok {cells : List Cell} (bytes : ℤ)
    (hcells : ∀ cell ∈ cells, sqlValueSize cell ≤ maxCellBytes)
    (hbytes : ((cells.map sqlValueSize).sum : ℕ) ≤ bytes) :
    collectCells cells bytes = .ok (bytes - ((cells.map sqlValueSize).sum : ℕ)) := by
  induction cells generalizing bytes with
  | nil => simp [collectCells]
  | cons cell cells ih =>
    rw [List.forall_mem_cons] at hcells
    simp only [List.map_cons, List.sum_cons, Nat.cast_add] at hbytes ⊢
    have hrest := ih (bytes - sqlValueSize cell) hcells.2 (by omega)
    rw [collectCells, demand_bind hcells.1, demand_bind (by omega), hrest, Int.sub_sub]

/-- What the collector charges for a row. -/
def rowCharge (row : List Cell) : ℕ :=
  maxSQLRowCharge + row.length * maxSQLCellCharge + (row.map sqlValueSize).sum

theorem collectRows_eq_ok {columns : ℕ} (collected : ℕ) {rows : List (List Cell)}
    (budget : ResultBudget)
    (hrows : ∀ row ∈ rows, row.length = columns ∧ ∀ cell ∈ row, sqlValueSize cell ≤ maxCellBytes)
    (hcount : rows.length ≤ budget.rows) (hbytes : ((rows.map rowCharge).sum : ℕ) ≤ budget.bytes) :
    collectRows columns none collected rows budget =
      .ok { budget with
        rows := budget.rows - rows.length
        bytes := budget.bytes - ((rows.map rowCharge).sum : ℕ) } := by
  induction rows generalizing collected budget with
  | nil => simp [collectRows]
  | cons row rows ih =>
    rw [List.forall_mem_cons] at hrows
    obtain ⟨⟨rfl, hcells⟩, hrest⟩ := hrows
    simp only [List.map_cons, List.sum_cons, Nat.cast_add, List.length_cons] at hbytes hcount ⊢
    have hrow : ((rowCharge row : ℕ) : ℤ) =
        (maxSQLRowCharge + row.length * maxSQLCellCharge : ℕ) +
          ((row.map sqlValueSize).sum : ℕ) := by
      rw [rowCharge, Nat.cast_add]
    have hcollected := collectCells_eq_ok
      (budget.bytes - (maxSQLRowCharge + row.length * maxSQLCellCharge : ℕ)) hcells (by omega)
    rw [collectRows, demand_bind (by simp), demand_bind (by omega), demand_bind (by omega),
      demand_bind rfl, hcollected]
    simp only [bind, Except.bind]
    rw [ih (collected + 1) _ hrest (by simp only; omega) (by simp only; omega)]
    simp only [Except.ok.injEq, ResultBudget.mk.injEq, and_true]
    omega

def collectRowsWithBudget (returned : Rows) (budget : ResultBudget)
    (expectedRows : Option Int64) : Except ExecuteFailure (SQLStatementResult × ResultBudget) := do
  demand (returned.columns.length ≤ maxSQLResultColumns) (.execution "invalid column count")
  let bytes := budget.bytes -
    ((returned.columns.map fun column => maxSQLColumnCharge + column.length).sum : ℕ)
  demand (0 ≤ bytes) exceeds
  let budget ← collectRows returned.columns.length expectedRows 0 returned.rows
    { budget with bytes }
  .ok ({ columns := returned.columns, rows := returned.rows, rowsAffected := 0
         lastInsertID := 0 }, budget)

/-- What the collector charges for the columns and the rows of a query. -/
def collectCharge (returned : Rows) : ℕ :=
  (returned.columns.map fun column => maxSQLColumnCharge + column.length).sum +
    (returned.rows.map rowCharge).sum

theorem collectRowsWithBudget_eq_ok {returned : Rows} (budget : ResultBudget)
    (hcolumns : returned.columns.length ≤ maxSQLResultColumns)
    (hrows : ∀ row ∈ returned.rows, row.length = returned.columns.length ∧
      ∀ cell ∈ row, sqlValueSize cell ≤ maxCellBytes)
    (hcount : returned.rows.length ≤ budget.rows)
    (hbytes : (collectCharge returned : ℕ) ≤ budget.bytes) :
    ∃ left, collectRowsWithBudget returned budget none =
      .ok (⟨returned.columns, returned.rows, 0, 0⟩, left) := by
  rw [collectCharge, Nat.cast_add] at hbytes
  have hcollected := collectRows_eq_ok 0 { budget with
    bytes := budget.bytes - ((returned.columns.map fun column =>
      maxSQLColumnCharge + column.length).sum : ℕ) } hrows hcount (by simp only; omega)
  rw [collectRowsWithBudget, demand_bind hcolumns, demand_bind (by omega), hcollected]
  exact ⟨_, rfl⟩

section Execute

variable {lib : Library} (engine : Engine lib.Float) {left : ResultBudget}
  {result : SQLStatementResult}

/-- The value of an earlier statement that an output reference names. -/
def outputValue (results : List SQLStatementResult) (ref : SQLStatementOutputRef) :
    Except ExecuteFailure Cell := do
  let prior := results.getD ref.statementIndex.toNatClampNeg ⟨[], [], 0, 0⟩
  demand (prior.rows.length = 1) (.execution "statement must return exactly one row")
  let column ← match ref.columnIndex with
    | some column => .ok column.toInt
    | none => do
      demand (prior.columns.count ref.columnName = 1) (.execution "output column must be unique")
      .ok (prior.columns.idxOf ref.columnName : ℤ)
  demand (0 ≤ column ∧ column < (prior.rows.headD []).length)
    (.execution "output column is out of bounds")
  .ok ((prior.rows.headD []).getD column.toNat .null)

/-- Resolves output references, after others that took the bytes. -/
def resolveOutputs (results : List SQLStatementResult) :
    List SQLStatementOutputRef → ℕ → Except ExecuteFailure ℕ
  | [], resolvedBytes => .ok resolvedBytes
  | ref :: refs, resolvedBytes => do
    let value ← outputValue results ref
    demand (resolvedBytes + sqlValueSize value ≤ maxMutationResultBytes)
      (.execution "resolved output references exceed 1048576 bytes")
    resolveOutputs results refs (resolvedBytes + sqlValueSize value)

/-- Converts the arguments of a statement and resolves its output references. -/
def resolveArgs (results : List SQLStatementResult) (budget : ResultBudget)
    (statement : SQLStatement lib.Float) : Except ExecuteFailure ResultBudget := do
  let bytes := budget.bytes - maxSQLStatementCharge
  demand (0 ≤ bytes) (.execution "SQL result exceeds 16777216 bytes of working memory")
  demand (statement.args.all fun arg => (sqlArg lib arg).isOk)
    (.execution "unsupported SQL argument type")
  let resolvedBytes ← resolveOutputs results statement.outputRefs budget.resolvedBytes
  .ok { budget with bytes, resolvedBytes }

theorem resolveArgs_nil {results : List SQLStatementResult} {budget : ResultBudget}
    {statement : SQLStatement lib.Float} (hargs : statement.args = [])
    (hrefs : statement.outputRefs = [])
    (hbudget : 0 ≤ budget.bytes - (maxSQLStatementCharge : ℕ)) :
    resolveArgs results budget statement =
      .ok { budget with bytes := budget.bytes - maxSQLStatementCharge } := by
  rw [resolveArgs, hargs, hrefs, demand_bind hbudget]
  rfl

def executeStatement (requireOne : Bool) (database : engine.Database)
    (results : List SQLStatementResult) (budget : ResultBudget)
    (statement : SQLStatement lib.Float) :
    Except ExecuteFailure (SQLStatementResult × ResultBudget × engine.Database) := do
  let budget ← resolveArgs results budget statement
  if statement.wantRows then
    let (returned, database) ← engine.query database results statement
    let (result, budget) ← collectRowsWithBudget returned budget statement.expectedReturnedRows
    demand (¬ (requireOne ∧ result.rows.length ≠ 1))
      (.precondition "statement must return exactly one row")
    demand (statement.expectedReturnedRows.all ((result.rows.length : ℤ) = ·.toInt))
      (.precondition "statement returned another number of rows than expected")
    .ok (result, budget, database)
  else
    let (changes, database) ← engine.exec database results statement
    demand (statement.expectedRowsAffected.all (changes.rowsAffected = ·))
      (.precondition "statement affected another number of rows than expected")
    .ok ({ columns := [], rows := [], rowsAffected := changes.rowsAffected
           lastInsertID := changes.lastInsertID }, budget, database)

/-- A query without expectations gives what is collected of its rows. -/
theorem executeStatement_query {database database' : engine.Database}
    {results : List SQLStatementResult} {budget : ResultBudget}
    {statement : SQLStatement lib.Float} {returned : Rows} {bound : ResultBudget}
    (hwant : statement.wantRows = true) (hexpected : statement.expectedReturnedRows = none)
    (hargs : resolveArgs results budget statement = .ok bound)
    (hquery : engine.query database results statement = .ok (returned, database'))
    (hcollect : collectRowsWithBudget returned bound none = .ok (result, left)) :
    executeStatement engine false database results budget statement =
      .ok (result, left, database') := by
  simp only [executeStatement, hwant, if_true, hquery, hexpected, hargs]
  simp [bind, Except.bind, hcollect, demand]

/-- Runs the statements after those that gave the results so far. -/
def executeStatements (requireOne : Bool) :
    List (SQLStatement lib.Float) → engine.Database → List SQLStatementResult → ResultBudget →
      Except ExecuteFailure (List SQLStatementResult × engine.Database)
  | [], database, results, _ => .ok (results, database)
  | statement :: statements, database, results, budget => do
    let (result, budget, database) ←
      executeStatement engine requireOne database results budget statement
    executeStatements requireOne statements database (results ++ [result]) budget

/-- The budget that a command starts with. -/
def commandBudget : ResultBudget := ⟨maxReturningRows, maxResultBytes, 0⟩

/-- Records the migration of a command, if it has one, and tells whether it was applied
before. -/
def beginCommand (database : engine.Database) (command : SQLCommand lib.Float) :
    Except ExecuteFailure (Bool × engine.Database) :=
  match command.migration with
  | some migration => engine.migrate database migration
  | none => .ok (false, database)

/-- The result of a command whose statements have run, if it can be stored. -/
def finishCommand (command : SQLCommand lib.Float) :
    List SQLStatementResult × engine.Database →
      Except ExecuteFailure (SQLCommandResult × engine.Database)
  | (statements, database) =>
    let result : SQLCommandResult := { statements, error := [] }
    if command.wantRows ∨ ∃ statement ∈ command.effective lib, statement.wantRows = true then
      match encodeSQLResult result with
      | .ok _ => .ok (result, database)
      | .error message => .error (.execution message)
    else .ok (result, database)

def executeSQLCommand (database : engine.Database) (command : SQLCommand lib.Float) :
    Except ExecuteFailure (SQLCommandResult × engine.Database) :=
  match beginCommand engine database command with
  | .error failure => .error failure
  | .ok (true, database) => .ok ({ statements := [], error := [] }, database)
  | .ok (false, database) =>
    (executeStatements engine command.requireOne (command.effective lib) database []
      commandBudget).bind (finishCommand engine command)

/-- A single statement that asks for rows gives its own result, if that can be stored. -/
theorem executeSQLCommand_single {command : SQLCommand lib.Float}
    {database database' : engine.Database} {encoded : ByteString} (hmove : command.migration = none)
    (hparts : command.statements = []) (hwant : command.wantRows = true)
    (hrun : executeStatement engine command.requireOne database [] commandBudget
      { sql := command.sql, args := command.args, wantRows := command.wantRows
        expectedRowsAffected := none, expectedReturnedRows := none, outputRefs := [] } =
      .ok (result, left, database'))
    (henc : encodeSQLResult { statements := [result], error := [] } = .ok encoded) :
    executeSQLCommand engine database command =
      .ok ({ statements := [result], error := [] }, database') := by
  rw [hwant] at hrun
  rw [executeSQLCommand, beginCommand, hmove]
  simp only [SQLCommand.effective, hparts, if_true]
  simp [bind, Except.bind, executeStatements, hrun, finishCommand, hwant, henc]

end Execute

end Rhiza.Materializer
