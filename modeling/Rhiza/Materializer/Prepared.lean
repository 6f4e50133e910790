import Rhiza.Foundations.Table
import Rhiza.Materializer.Execute

/-! # Prepared statements

The statements of a batch of decided values are compiled once for each text and reused to the
end of the batch. A statement that is reused after the schema has changed is compiled again
when it is stepped; the columns, which the collector asks for before the first step, are still
those of the compilation before.
-/

namespace Rhiza.Materializer

open Foundations Commands

/-- The database engine, with what can be seen of compiled statements. -/
structure SQLite (Float : Type) extends Engine Float where
  /-- Whether a text compiles. -/
  compiles : Database → ByteString → Bool
  /-- Whether a statement is brought to its first step: its text compiles and its arguments are
  bound. -/
  steps : Database → List SQLStatementResult → SQLStatement Float → Bool
  /-- The columns of a text that is compiled now. -/
  columns : Database → ByteString → List ByteString
  query_columns : ∀ database results statement returned database',
    query database results statement = .ok (returned, database') →
      returned.columns = columns database statement.sql

/-- The compiled statements of a batch, each with the columns of its last compilation. -/
abbrev Prepared := Table ByteString (List ByteString)

section Session

variable {lib : Library} (engine : SQLite lib.Float)

/-- The engine behind a statement that reports the given columns. -/
def SQLite.reporting (reported : Option (List ByteString)) : Engine lib.Float :=
  { engine.toEngine with
    query := fun database results statement =>
      (engine.query database results statement).map fun (returned, database) =>
        ({ returned with columns := reported.getD returned.columns }, database) }

/-- The compiled statements once the text is asked for: it is compiled unless it was before. -/
def Prepared.compiled (prepared : Prepared) (database : engine.Database) (sql : ByteString) :
    Prepared :=
  if prepared.lookup sql = none ∧ engine.compiles database sql = true then
    prepared.insert sql (engine.columns database sql)
  else prepared

/-- The compiled statements once the text is stepped, with the schema as it is then. -/
def Prepared.stepped (prepared : Prepared) (database : engine.Database) (sql : ByteString) :
    Prepared :=
  prepared.insert sql (engine.columns database sql)

/-- The compiled statements once the statement has run. -/
def Prepared.after (prepared : Prepared) (database : engine.Database)
    (results : List SQLStatementResult) (budget : ResultBudget)
    (statement : SQLStatement lib.Float) :
    Prepared :=
  match resolveArgs results budget statement with
  | .error _ => prepared
  | .ok _ =>
    if engine.steps database results statement then prepared.stepped engine database statement.sql
    else prepared.compiled engine database statement.sql

/-- Runs the statements of a command through the compiled ones. -/
def runStatements (requireOne : Bool) :
    List (SQLStatement lib.Float) → engine.Database → Prepared → List SQLStatementResult →
      ResultBudget → Prepared × Except ExecuteFailure (List SQLStatementResult × engine.Database)
  | [], database, prepared, results, _ => (prepared, .ok (results, database))
  | statement :: rest, database, prepared, results, budget =>
    let prepared' := prepared.after engine database results budget statement
    match executeStatement (engine.reporting (prepared.lookup statement.sql)) requireOne database
      results budget statement with
    | .error failure => (prepared', .error failure)
    | .ok (result, budget, database) =>
      runStatements requireOne rest database prepared' (results ++ [result]) budget

/-- Executes a command within a batch. -/
def runSQLCommand (prepared : Prepared) (database : engine.Database)
    (command : SQLCommand lib.Float) :
    Prepared × Except ExecuteFailure (SQLCommandResult × engine.Database) :=
  match beginCommand engine.toEngine database command with
  | .error failure => (prepared, .error failure)
  | .ok (true, database) => (prepared, .ok ({ statements := [], error := [] }, database))
  | .ok (false, database) =>
    let (prepared, outcome) := runStatements engine command.requireOne (command.effective lib)
      database prepared [] commandBudget
    (prepared, outcome.bind (finishCommand engine.toEngine command))

/-! ## Statements that report their columns -/

/-- No statement that returns rows reports the columns of an outdated compilation. -/
def StatementsCurrent (requireOne : Bool) :
    List (SQLStatement lib.Float) → engine.Database → Prepared → List SQLStatementResult →
      ResultBudget → Prop
  | [], _, _, _, _ => True
  | statement :: rest, database, prepared, results, budget =>
    (statement.wantRows = true → ∀ reported ∈ prepared.lookup statement.sql,
      reported = engine.columns database statement.sql) ∧
    ∀ result budget' database',
      executeStatement engine.toEngine requireOne database results budget statement =
        .ok (result, budget', database') →
      StatementsCurrent requireOne rest database'
        (prepared.after engine database results budget statement) (results ++ [result]) budget'

/-- The same of the statements of a command. -/
def CommandCurrent (prepared : Prepared) (database : engine.Database)
    (command : SQLCommand lib.Float) : Prop :=
  ∀ database', beginCommand engine.toEngine database command = .ok (false, database') →
    StatementsCurrent engine command.requireOne (command.effective lib) database' prepared []
      commandBudget

variable {engine}

variable {database : engine.Database} {requireOne : Bool} {results : List SQLStatementResult}
  {budget : ResultBudget} {prepared : Prepared}

theorem executeStatement_reporting
    {statement : SQLStatement lib.Float} {reported : Option (List ByteString)}
    (hnow : statement.wantRows = true → ∀ columns ∈ reported,
      columns = engine.columns database statement.sql) :
    executeStatement (engine.reporting reported) requireOne database results budget statement =
      executeStatement engine.toEngine requireOne database results budget statement := by
  by_cases hwant : statement.wantRows = true
  swap
  · simp only [executeStatement, if_neg hwant]
    rfl
  have hquery : (engine.reporting reported).query database results statement =
      engine.query database results statement := by
    change (engine.query database results statement).map _ = _
    cases hrun : engine.query database results statement with
    | error => rfl
    | ok answer =>
      obtain ⟨returned, database'⟩ := answer
      cases reported with
      | none => rfl
      | some columns =>
        have hcolumns := engine.query_columns _ _ _ _ _ hrun
        rw [← hnow hwant columns rfl] at hcolumns
        rw [← hcolumns]
        rfl
  simp only [executeStatement, if_pos hwant, hquery]
  rfl

theorem runStatements_eq {statements : List (SQLStatement lib.Float)}
    (hnow : StatementsCurrent engine requireOne statements database prepared results budget) :
    (runStatements engine requireOne statements database prepared results budget).2 =
      executeStatements engine.toEngine requireOne statements database results budget := by
  induction statements generalizing database prepared results budget with
  | nil => rfl
  | cons statement rest ih =>
    obtain ⟨hreported, hrest⟩ := hnow
    simp only [runStatements, executeStatement_reporting hreported, executeStatements]
    cases hstep : executeStatement engine.toEngine requireOne database results budget statement with
    | error => rfl
    | ok answer =>
      obtain ⟨result, budget', database'⟩ := answer
      exact ih (hrest result budget' database' hstep)

/-- A command whose statements report their columns has the outcome it would have with every
statement compiled anew. -/
theorem runSQLCommand_eq
    {command : SQLCommand lib.Float} (hnow : CommandCurrent engine prepared database command) :
    (runSQLCommand engine prepared database command).2 =
      executeSQLCommand engine.toEngine database command := by
  rw [executeSQLCommand, runSQLCommand]
  cases hbegin : beginCommand engine.toEngine database command with
  | error => rfl
  | ok begun =>
    obtain ⟨applied, database'⟩ := begun
    cases applied with
    | true => rfl
    | false =>
      simp only
      rw [← runStatements_eq (hnow database' hbegin)]

end Session

end Rhiza.Materializer
