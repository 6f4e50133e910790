import Rhiza.Commands.Faithful
import Rhiza.Foundations.Table
import Rhiza.Materializer.Execute
import Rhiza.Materializer.ResultRoundTrip

/-! # Receipts of SQL commands

The receipts of executed commands are kept in a table of the database, with the result for
those that asked for rows. A command whose request id has a receipt is skipped; to find that
out, the whole receipt is read. Within one batch of decided values the request ids executed
so far are known without a look at the table. A filter in front of the table, which only saves
lookups, is left out.
-/

namespace Rhiza.Materializer

open Foundations Commands

inductive MutationErrorCode where
  | none
  | executionFailed
  | preconditionFailed
  | resultRetentionFull
  deriving DecidableEq

structure MutationReceipt where
  slot : ℕ
  /-- Whether the mutation was committed rather than rejected. -/
  committed : Bool
  errorCode : MutationErrorCode
  rowsAffected : Int64
  lastInsertID : Int64
  retryThroughSlot : ℕ

/-- A row of the receipt table. -/
structure ReceiptRow where
  fingerprint : ValueHash
  slot : ℕ
  committed : Bool
  errorCode : MutationErrorCode
  rowsAffected : Int64
  lastInsertID : Int64
  sqlResult : ByteString

structure StoredReceipt where
  fingerprint : ValueHash
  receipt : MutationReceipt
  sqlResult : SQLCommandResult

def noResult : SQLCommandResult := { statements := [], error := [] }

def ReceiptRow.receipt (window : ℕ) (row : ReceiptRow) : MutationReceipt :=
  { slot := row.slot, committed := row.committed, errorCode := row.errorCode
    rowsAffected := row.rowsAffected, lastInsertID := row.lastInsertID
    retryThroughSlot := row.slot + window - 1 }

def scanReceipt (window : ℕ) (row : ReceiptRow) : Checked StoredReceipt := do
  let sqlResult ← if row.sqlResult = [] then .ok noResult else decodeSQLResult row.sqlResult
  .ok { fingerprint := row.fingerprint, receipt := row.receipt window, sqlResult }

/-! ## Retention -/

def maxRetainedSQLResultBytes : ℕ := 256 * 2 ^ 20

structure SQLReceiptRetentionUsage where
  resultBytes : ℕ
  receipts : ℕ

namespace SQLReceiptRetentionUsage

def admits (usage : SQLReceiptRetentionUsage) (resultBytes window : ℕ) : Bool :=
  usage.resultBytes ≤ maxRetainedSQLResultBytes ∧
    usage.receipts ≤ maxSQLCommandsPerDecidedValue * window ∧
    usage.receipts < maxSQLCommandsPerDecidedValue * window ∧
    resultBytes ≤ maxRetainedSQLResultBytes - usage.resultBytes

def add (usage : SQLReceiptRetentionUsage) (resultBytes : ℕ) : SQLReceiptRetentionUsage :=
  ⟨usage.resultBytes + resultBytes, usage.receipts + 1⟩

end SQLReceiptRetentionUsage

/-! ## Applying commands -/

section Apply

variable {lib : Library} (engine : Engine lib.Float) (codec : Codec) (window : ℕ)

/-- The state behind `ApplyBatch`, within a batch of decided values. -/
structure Materialized where
  database : engine.Database
  receipts : Table ByteString ReceiptRow
  usage : SQLReceiptRetentionUsage
  /-- The request ids executed in this batch. -/
  pending : List ByteString

/-- Whether the result of the command is kept with its receipt. -/
def keepsResult (command : SQLCommand lib.Float) : Bool :=
  command.statements.any (·.wantRows) || (command.statements.isEmpty && command.wantRows)

/-- The receipt of an execution at a slot, with what is stored of its result. -/
def executionReceipt (slot : ℕ) (fingerprint : ValueHash) (sqlResult : ByteString) :
    Except ExecuteFailure (SQLCommandResult × engine.Database) → ReceiptRow
  | .ok (result, _) =>
    { fingerprint, slot, committed := true, errorCode := .none
      rowsAffected := (result.statements.map SQLStatementResult.rowsAffected).sum
      lastInsertID := (result.statements.getLast?.map SQLStatementResult.lastInsertID).getD 0
      sqlResult }
  | .error failure =>
    { fingerprint, slot, committed := false
      errorCode := match failure with
        | .precondition _ => .preconditionFailed
        | _ => .executionFailed
      rowsAffected := 0, lastInsertID := 0, sqlResult }

/-- The receipt of a command whose result finds no room. -/
def rejectedReceipt (slot : ℕ) (fingerprint : ValueHash) : ReceiptRow :=
  { fingerprint, slot, committed := false, errorCode := .resultRetentionFull
    rowsAffected := 0, lastInsertID := 0, sqlResult := [] }

/-- Keeps the receipt of a command, and its result if it asked for rows. A result that finds
no room undoes the command. -/
def keepReceipt (slot : ℕ) (fingerprint : ValueHash) (command : SQLCommand lib.Float)
    (state : Materialized engine) (result : SQLCommandResult) (database : engine.Database)
    (receipt : ByteString → ReceiptRow) : Checked (Materialized engine) := do
  let encodedResult ← encodeSQLResult (if keepsResult command then result else noResult)
  require (state.usage.admits 0 window = true) "SQL receipt envelope counter exceeds policy bounds"
  if state.usage.admits encodedResult.length window then
    .ok { database
          receipts := state.receipts.insert command.requestID (receipt encodedResult)
          usage := state.usage.add encodedResult.length
          pending := command.requestID :: state.pending }
  else
    .ok { database := state.database
          receipts := state.receipts.insert command.requestID (rejectedReceipt slot fingerprint)
          usage := state.usage.add 0
          pending := command.requestID :: state.pending }

/-- What becomes of a command that was executed: a receipt is kept if it has a request id, and a
failed command is undone. -/
def concludeCommand (slot : ℕ) (fingerprint : ValueHash) (command : SQLCommand lib.Float)
    (executed : Except ExecuteFailure (SQLCommandResult × engine.Database))
    (state : Materialized engine) : Checked (Materialized engine) :=
  match executed with
  | .error .policyState => .error "SQL policy state is lost"
  | .error _ =>
    if command.requestID = [] then .error "SQL command failed"
    else keepReceipt engine window slot fingerprint command state noResult state.database
      fun encodedResult => executionReceipt engine slot fingerprint encodedResult executed
  | .ok (result, database) =>
    if command.requestID = [] then .ok { state with database }
    else keepReceipt engine window slot fingerprint command state result database
      fun encodedResult => executionReceipt engine slot fingerprint encodedResult executed

/-- Executes a command that has no receipt. -/
def executeCommand (slot : ℕ) (fingerprint : ValueHash) (command : SQLCommand lib.Float)
    (state : Materialized engine) : Checked (Materialized engine) :=
  concludeCommand engine window slot fingerprint command
    (executeSQLCommand engine state.database command) state

/-- Applies one command of a decided value. -/
def applyCommand (slot : ℕ) (command : SQLCommand lib.Float) (state : Materialized engine) :
    Checked (Materialized engine) := do
  validateSQLCommand lib command
  let fingerprint ← orElseError "encode SQL request" (sqlFingerprint lib codec command)
  if command.requestID ≠ [] ∧ command.requestID ∈ state.pending then .ok state
  else
    match if command.requestID = [] then none else state.receipts.lookup command.requestID with
    | some row => do
      let _ ← scanReceipt window row
      .ok state
    | none => executeCommand engine window slot fingerprint command state

/-! ## Reading receipts back -/

/-- The receipt gives back the result it was stored for: to a reader, and to the application
of a later decision for the same request id, which then changes nothing. -/
structure ReadBack (requestID : ByteString) (row : ReceiptRow) (result : SQLCommandResult) :
    Prop where
  decoded : decodeSQLResult row.sqlResult = .ok result
  scanned : (scanReceipt window row).map StoredReceipt.sqlResult = .ok result
  skipped : ∀ (slot : ℕ) (command : SQLCommand lib.Float) (later : Materialized engine),
    command.requestID = requestID → later.receipts.lookup requestID = some row →
    validateSQLCommand lib command = .ok () → (sqlFingerprint lib codec command).isSome →
      applyCommand engine codec window slot command later = .ok later

variable {row : ReceiptRow} {result : SQLCommandResult} {slot : ℕ} {command : SQLCommand lib.Float}
  {state : Materialized engine} {fingerprint : ValueHash}

theorem scanReceipt_eq_ok (hne : row.sqlResult ≠ [])
    (h : decodeSQLResult row.sqlResult = .ok result) :
    (scanReceipt window row).map StoredReceipt.sqlResult = .ok result := by
  rw [scanReceipt, if_neg hne, h]
  rfl

theorem applyCommand_skips {record : StoredReceipt}
    (hid : command.requestID ≠ []) (hrow : state.receipts.lookup command.requestID = some row)
    (hscan : scanReceipt window row = .ok record) (hvalid : validateSQLCommand lib command = .ok ())
    (hprint : (sqlFingerprint lib codec command).isSome) :
    applyCommand engine codec window slot command state = .ok state := by
  obtain ⟨fingerprint, hprint⟩ := Option.isSome_iff_exists.mp hprint
  rw [applyCommand, hvalid, hprint]
  simp only [ok_bind, orElseError]
  split
  · rfl
  · simp only [hrow, hscan, ok_bind]

/-- The bytes a receipt keeps encode the result it was kept for. -/
theorem result_of_keepReceipt
    {state' : Materialized engine} {database : engine.Database} {receipt : ByteString → ReceiptRow}
    (h : keepReceipt engine window slot fingerprint command state result database receipt =
      .ok state')
    (hslip : ∀ encoded, (receipt encoded).sqlResult = encoded)
    (hrow : state'.receipts.lookup command.requestID = some row) (hkept : row.sqlResult ≠ []) :
    encodeSQLResult result = .ok row.sqlResult ∧ result.statements ≠ [] := by
  have hnone : encodeSQLResult noResult = .ok [] := rfl
  simp only [keepReceipt, bind_eq_ok] at h
  obtain ⟨encoded, henc, _, -, h⟩ := h
  split at h
  · cases h
    rw [Table.lookup_insert_eq, if_pos rfl] at hrow
    cases hrow
    rw [hslip] at hkept ⊢
    by_cases hkeeps : keepsResult command = true
    · rw [if_pos hkeeps] at henc
      refine ⟨henc, fun hempty => hkept ?_⟩
      rw [encodeSQLResult, if_pos hempty] at henc
      split at henc
      · cases henc
      · exact (Except.ok.inj henc).symm
    · rw [if_neg hkeeps, hnone] at henc
      exact absurd (Except.ok.inj henc).symm hkept
  · cases h
    rw [Table.lookup_insert_eq, if_pos rfl] at hrow
    cases hrow
    exact absurd rfl hkept

/-- A receipt that keeps bytes is written for the result of a successful execution. -/
theorem result_of_executeCommand
    {state' : Materialized engine}
    (h : executeCommand engine window slot fingerprint command state = .ok state')
    (hid : command.requestID ≠ [])
    (hrow : state'.receipts.lookup command.requestID = some row) (hkept : row.sqlResult ≠ []) :
    ∃ result database, executeSQLCommand engine state.database command = .ok (result, database) ∧
      encodeSQLResult result = .ok row.sqlResult ∧ result.statements ≠ [] := by
  unfold executeCommand concludeCommand at h
  split at h
  · exact absurd h nofun
  · next failure hexecuted =>
    rw [if_neg hid, hexecuted] at h
    have hout := result_of_keepReceipt engine window h (fun _ => rfl) hrow hkept
    exact absurd rfl hout.2
  · next result database hexecuted =>
    rw [if_neg hid, hexecuted] at h
    exact ⟨result, database, hexecuted,
      result_of_keepReceipt engine window h (fun _ => rfl) hrow hkept⟩

/-- The receipt that a command executed for the first time leaves behind is read back exactly
when the reader's charges for the result fit its budget. -/
theorem applyCommand_readBack_iff {row : ReceiptRow} {slot : ℕ} {command : SQLCommand lib.Float}
    {state state' : Materialized engine}
    (happly : applyCommand engine codec window slot command state = .ok state')
    (hid : command.requestID ≠ []) (hpending : command.requestID ∉ state.pending)
    (hnew : state.receipts.lookup command.requestID = none)
    (hrow : state'.receipts.lookup command.requestID = some row) (hkept : row.sqlResult ≠ []) :
    ∃ result database, executeSQLCommand engine state.database command = .ok (result, database) ∧
      encodeSQLResult result = .ok row.sqlResult ∧
      (ReadBack engine codec window command.requestID row result ↔
        result.readCharge ≤ maxResultBytes) := by
  have hexecute : ∃ fingerprint,
      executeCommand engine window slot fingerprint command state = .ok state' := by
    simp only [applyCommand, bind_eq_ok] at happly
    obtain ⟨_, -, fingerprint, -, happly⟩ := happly
    rw [if_neg (fun h => hpending h.2), if_neg hid, hnew] at happly
    exact ⟨fingerprint, happly⟩
  obtain ⟨fingerprint, hexecute⟩ := hexecute
  obtain ⟨result, database, hresult, hencoded, hne⟩ :=
    result_of_executeCommand engine window hexecute hid hrow hkept
  obtain ⟨hbytes, hstorable⟩ := (encodeSQLResult_eq_ok hne).mp hencoded
  have hdecode := decodeSQLResult_bytes hstorable
  rw [← hbytes] at hdecode
  refine ⟨result, database, hresult, hencoded, fun h => hdecode.mp h.decoded, fun hcharge => ?_⟩
  have hdecoded := hdecode.mpr hcharge
  have hscanned := scanReceipt_eq_ok window hkept hdecoded
  refine ⟨hdecoded, hscanned, ?_⟩
  rintro slot' command' later rfl' hlater hvalid hfingerprint
  cases hscan : scanReceipt window row with
  | error =>
    rw [hscan] at hscanned
    cases hscanned
  | ok =>
    exact applyCommand_skips engine codec window (by rw [rfl']; exact hid)
      (by rw [rfl']; exact hlater)
      hscan hvalid hfingerprint

end Apply

/-! ## Rows of nulls -/

/-- A database in which every query returns the same rows. -/
def returning (returned : Rows) : Engine Library.whole.Float where
  Database := Unit
  migrate _ _ := .ok (false, ())
  query _ _ _ := .ok (returned, ())
  exec _ _ _ := .error (.execution "not a query")

def returnAll : SQLCommand Library.whole.Float :=
  { requestID := bytesOf "r1", sql := bytesOf "DELETE FROM t RETURNING *", args := []
    wantRows := true, requireOne := false, statements := [], migration := none }

def freshState (returned : Rows) : Materialized (returning returned) where
  database := ()
  receipts := ∅
  usage := ⟨0, 0⟩
  pending := []

/-- The given numbers of rows and columns, without a value in any cell. -/
def nulls (rows columns : ℕ) : Rows where
  columns := List.replicate columns (bytesOf "c")
  rows := List.replicate rows (List.replicate columns .null)

def nullsResult (rows columns : ℕ) : SQLCommandResult where
  statements := [{ columns := (nulls rows columns).columns, rows := (nulls rows columns).rows
                   rowsAffected := 0, lastInsertID := 0 }]
  error := []

theorem readCharge_nullsResult (rows columns : ℕ) :
    (nullsResult rows columns).readCharge =
      256 + (columns * 33 + rows * 64 + rows * (columns * 64 + columns * 65)) := by
  simp only [SQLCommandResult.readCharge, SQLStatementResult.readCharge, nullsResult, nulls,
    rowReadCharge, List.map_cons, List.map_nil, List.sum_cons, List.sum_nil, List.map_replicate,
    List.sum_replicate_nat, List.length_replicate, List.length_cons, List.length_nil,
    Cell.readCharge, maxSQLStatementCharge, maxSQLColumnCharge, maxSQLRowCharge,
    maxSQLCellCharge]
  rfl

theorem length_bytes_nullsResult (rows columns : ℕ) :
    (nullsResult rows columns).bytes.length =
      8 + (24 + (columns * 5 + rows * (4 + columns))) + 4 := by
  simp only [SQLCommandResult.bytes, SQLStatementResult.bytes, nullsResult, nulls, rowBytes,
    List.length_append, List.length_flatMap, List.map_cons, List.map_nil, List.sum_cons,
    List.sum_nil, List.map_replicate, List.sum_replicate_nat, Cell.bytes,
    uint32, int64, BigEndian.length_bytes, List.length_cons, List.length_nil]
  have hmagic : resultMagic.length = 4 := rfl
  have hname : (bytesOf "c").length = 1 := rfl
  rw [hmagic, hname, Nat.zero_add, Nat.mul_one]
  omega

variable {columns : ℕ}

theorem storable_nullsResult {rows : ℕ} (hrows : rows ≤ maxReturningRows)
    (hcolumns : columns ≤ maxSQLResultColumns)
    (hlen : 36 + columns * 5 + rows * (4 + columns) ≤ maxMutationResultBytes) :
    (nullsResult rows columns).Storable where
  statementCount := (by decide : 1 ≤ maxSQLStatements)
  statements := by
    intro statement hmem
    obtain rfl := List.mem_singleton.mp hmem
    refine ⟨?_, ?_, ?_, ?_⟩
    · simpa [nulls] using hcolumns
    · simpa [nulls] using hrows
    · intro column hcolumn
      rw [List.eq_of_mem_replicate hcolumn]
      decide
    · intro row hrow
      rw [List.eq_of_mem_replicate hrow]
      refine ⟨by simp [nulls], fun cell hcell => ?_⟩
      rw [List.eq_of_mem_replicate hcell]
      trivial
  length := by
    rw [length_bytes_nullsResult]
    omega

theorem collectCharge_nulls (rows columns : ℕ) :
    collectCharge (nulls rows columns) =
      columns * 33 + rows * (64 + columns * 64 + columns) := by
  simp only [collectCharge, nulls, List.map_replicate, List.sum_replicate_nat, rowCharge,
    List.length_replicate, sqlValueSize, maxSQLColumnCharge, maxSQLRowCharge, maxSQLCellCharge,
    Nat.mul_one]
  rfl

/-- The collector charges less for a null than the reader. -/
theorem execute_nulls {rows : ℕ} (h : (nullsResult rows columns).Storable)
    (hcost : 256 + (columns * 33 + rows * (64 + columns * 64 + columns)) ≤ maxResultBytes) :
    executeSQLCommand (returning (nulls rows columns)) () returnAll =
      .ok (nullsResult rows columns, ()) := by
  have hpart := h.statements _ List.mem_cons_self
  have hcells : ∀ row ∈ (nulls rows columns).rows,
      row.length = (nulls rows columns).columns.length ∧
        ∀ cell ∈ row, sqlValueSize cell ≤ maxCellBytes := by
    intro row hrow
    rw [List.eq_of_mem_replicate hrow]
    refine ⟨by simp [nulls], fun cell hcell => ?_⟩
    rw [List.eq_of_mem_replicate hcell]
    decide
  obtain ⟨left, hcollect⟩ := collectRowsWithBudget_eq_ok
    ⟨maxReturningRows, (maxResultBytes : ℤ) - (maxSQLStatementCharge : ℕ), 0⟩
    hpart.columnCount hcells hpart.rowCount
    (by rw [collectCharge_nulls]; simp only [maxSQLStatementCharge]; omega)
  have hwrote := (encodeSQLResult_eq_ok (List.cons_ne_nil _ _)).mpr ⟨rfl, h⟩
  exact executeSQLCommand_single (returning (nulls rows columns)) rfl rfl rfl
    (executeStatement_query (returning (nulls rows columns)) rfl rfl
      (resolveArgs_nil rfl rfl (by decide)) rfl hcollect)
    hwrote

/-- The state after the command, with its receipt. -/
def storedNulls (rows columns : ℕ) : Materialized (returning (nulls rows columns)) where
  database := ()
  receipts := (∅ : Table ByteString ReceiptRow).insert returnAll.requestID
    { fingerprint := (sqlFingerprint .whole (.tabled []) returnAll).getD 0
      slot := 1, committed := true, errorCode := .none, rowsAffected := 0, lastInsertID := 0
      sqlResult := (nullsResult rows columns).bytes }
  usage := ⟨(nullsResult rows columns).bytes.length, 1⟩
  pending := [returnAll.requestID]

theorem validate_returningCommand : validateSQLCommand .whole returnAll = .ok () :=
  toOption_eq_some.mp (by decide +kernel)

theorem fingerprint_returningCommand :
    (sqlFingerprint .whole (.tabled []) returnAll).isSome = true := by
  decide +kernel

theorem executeCommand_nulls {rows : ℕ} (h : (nullsResult rows columns).Storable)
    (hcost : 256 + (columns * 33 + rows * (64 + columns * 64 + columns)) ≤ maxResultBytes)
    {fingerprint : ValueHash}
    (hprint : sqlFingerprint .whole (.tabled []) returnAll = some fingerprint) :
    executeCommand (returning (nulls rows columns)) 1024 1 fingerprint returnAll
      (freshState (nulls rows columns)) = .ok (storedNulls rows columns) := by
  have henc := (encodeSQLResult_eq_ok (List.cons_ne_nil _ _)).mpr ⟨rfl, h⟩
  have hid : returnAll.requestID ≠ [] := by decide
  have hkeeps : keepsResult returnAll = true := rfl
  have hroom : ∀ size, size ≤ maxMutationResultBytes →
      (freshState (nulls rows columns)).usage.admits size 1024 = true := by
    intro size hsize
    have hbound := Nat.le_trans hsize
      (by decide : maxMutationResultBytes ≤ maxRetainedSQLResultBytes)
    simp [SQLReceiptRetentionUsage.admits, freshState, hbound, maxSQLCommandsPerDecidedValue]
  have hrun : executeSQLCommand (returning (nulls rows columns))
      (freshState (nulls rows columns)).database returnAll =
        .ok (nullsResult rows columns, ()) := execute_nulls h hcost
  rw [executeCommand, hrun]
  simp only [concludeCommand, if_neg hid, keepReceipt, hkeeps, if_true]
  rw [show encodeSQLResult (nullsResult rows columns) =
    .ok (nullsResult rows columns).bytes from henc,
    ok_bind, require, if_pos (hroom 0 (Nat.zero_le _)), ok_bind, if_pos (hroom _ h.length)]
  have husage : (freshState (nulls rows columns)).usage.add
      (nullsResult rows columns).bytes.length =
      ⟨(nullsResult rows columns).bytes.length, 1⟩ := by
    simp [freshState, SQLReceiptRetentionUsage.add]
  rw [husage, storedNulls, hprint]
  rfl

theorem applyCommand_nulls {rows : ℕ} (h : (nullsResult rows columns).Storable)
    (hcost : 256 + (columns * 33 + rows * (64 + columns * 64 + columns)) ≤ maxResultBytes) :
    applyCommand (returning (nulls rows columns)) (.tabled []) 1024 1 returnAll
      (freshState (nulls rows columns)) = .ok (storedNulls rows columns) := by
  obtain ⟨fingerprint, hprint⟩ := Option.isSome_iff_exists.mp fingerprint_returningCommand
  have hnew : (freshState (nulls rows columns)).receipts.lookup returnAll.requestID = none :=
    rfl
  have hid : returnAll.requestID ≠ [] := by decide
  rw [applyCommand, validate_returningCommand, hprint, ok_bind, orElseError, ok_bind,
    if_neg (fun hmem => absurd hmem.2 List.not_mem_nil), if_neg hid, hnew]
  exact executeCommand_nulls h hcost hprint

theorem lookup_storedNulls (rows columns : ℕ) :
    ∃ row, (storedNulls rows columns).receipts.lookup returnAll.requestID = some row ∧
      row.sqlResult = (nullsResult rows columns).bytes := by
  refine ⟨_, AList.lookup_insert _, rfl⟩

/-- Three rows of two nulls are read back. -/
theorem applyCommand_readBack_nulls :
    ∃ row, (storedNulls 3 2).receipts.lookup returnAll.requestID = some row ∧
      ReadBack (returning (nulls 3 2)) (.tabled []) 1024 returnAll.requestID row
        (nullsResult 3 2) := by
  have hstorable : (nullsResult 3 2).Storable :=
    storable_nullsResult (by decide) (by decide) (by decide)
  obtain ⟨row, hrow, hbytes⟩ := lookup_storedNulls 3 2
  have hkept : row.sqlResult ≠ [] := by
    rw [hbytes]
    exact List.ne_nil_of_length_pos (by rw [length_bytes_nullsResult]; decide)
  obtain ⟨result, database, hexecute, -, hiff⟩ := applyCommand_readBack_iff _ (.tabled []) 1024
    (applyCommand_nulls hstorable (by decide)) (by decide) List.not_mem_nil rfl hrow hkept
  have hresult := Except.ok.inj (hexecute.symm.trans (execute_nulls hstorable (by decide)))
  obtain rfl : result = nullsResult 3 2 := congrArg Prod.fst hresult
  exact ⟨row, hrow, hiff.mpr (by rw [readCharge_nullsResult]; decide)⟩

/-- Ten thousand rows of thirteen nulls are executed, kept, and not read back: neither by a
retry of the request nor by a second decision of it. -/
theorem applyCommand_fails_nulls :
    applyCommand (returning (nulls 10000 13)) (.tabled []) 1024 1 returnAll
        (freshState (nulls 10000 13)) = .ok (storedNulls 10000 13) ∧
      ((storedNulls 10000 13).receipts.lookup returnAll.requestID).any
        (fun row => row.sqlResult ≠ [] ∧ (decodeSQLResult row.sqlResult).isOk = false ∧
          (scanReceipt 1024 row).isOk = false) = true ∧
      (applyCommand (returning (nulls 10000 13)) (.tabled []) 1024 2 returnAll
        { storedNulls 10000 13 with pending := [] }).isOk = false := by
  have hstorable : (nullsResult 10000 13).Storable :=
    storable_nullsResult (by decide) (by decide) (by decide)
  obtain ⟨row, hrow, hbytes⟩ := lookup_storedNulls 10000 13
  have hkept : row.sqlResult ≠ [] := by
    rw [hbytes]
    exact List.ne_nil_of_length_pos (by rw [length_bytes_nullsResult]; decide)
  have hdecode : ∃ message, decodeSQLResult row.sqlResult = .error message := by
    have hoption := toOption_decodeSQLResult hstorable
    rw [if_neg (by rw [readCharge_nullsResult]; decide), ← hbytes] at hoption
    cases hcase : decodeSQLResult row.sqlResult with
    | error message => exact ⟨message, rfl⟩
    | ok =>
      rw [hcase] at hoption
      exact absurd hoption nofun
  obtain ⟨message, hdecode⟩ := hdecode
  have hscan : scanReceipt 1024 row = .error message := by
    rw [scanReceipt, if_neg hkept, hdecode]
    rfl
  refine ⟨applyCommand_nulls hstorable (by decide), ?_, ?_⟩
  · rw [hrow, Option.any_some, decide_eq_true_eq, hdecode, hscan]
    exact ⟨hkept, rfl, rfl⟩
  · obtain ⟨fingerprint, hfingerprint⟩ :=
      Option.isSome_iff_exists.mp fingerprint_returningCommand
    have hid : returnAll.requestID ≠ [] := by decide
    rw [applyCommand, validate_returningCommand, hfingerprint, ok_bind, orElseError, ok_bind,
      if_neg (fun hmem => absurd hmem.2 List.not_mem_nil), if_neg hid]
    simp only [hrow, hscan]
    rfl

end Rhiza.Materializer
