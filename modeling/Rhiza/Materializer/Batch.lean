import Rhiza.Materializer.Bloom
import Rhiza.Materializer.KeyValue
import Rhiza.Materializer.Prepared
import Rhiza.Materializer.Receipts

/-! # Applying batches of decided values

`ApplyBatch` applies a run of decided values in one transaction of the database. The receipts
of SQL commands wait in memory until enough of them have come together or the batch ends; those
that are older than the retention window are deleted before a value is applied. Whether a SQL
command was executed before is asked of the waiting receipts, of the filter, and of the table,
in this order. What a restart reads back is checked against counters that are kept along.

Between batches the counters and the position in memory are those in the database, so both
share a field. Graph values are left to the graph beside the database.
-/

namespace Rhiza.Materializer

open Foundations Commands

/-- A materializer's fixed parts. A managed one has other decoders; it leaves the receipts
alone while control values are applied. -/
structure Site where
  lib : Library
  engine : SQLite lib.Float
  codec : Codec
  scan : Scan
  window : ℕ
  managed : Bool
  policy : ByteString → Checked Unit
  decode : ByteString → Checked (Payload lib.Float)
  window_bounds : 1024 ≤ window ∧ window ≤ 1048576
  decode_count : ∀ value commands, decode value = .ok (.sql commands) →
    commands.length ≤ maxSQLCommandsPerDecidedValue

/-- What the execution of a command comes to. -/
abbrev Site.Outcome (site : Site) : Type :=
  Except ExecuteFailure (SQLCommandResult × site.engine.Database)

theorem length_of_mapM_ok {α β : Type} {f : α → Checked β} {elements : List α}
    {results : List β} (h : elements.mapM f = .ok results) : results.length = elements.length := by
  induction elements generalizing results with
  | nil =>
    cases h
    rfl
  | cons head tail ih =>
    simp only [List.mapM_cons, bind_eq_ok] at h
    obtain ⟨result, -, rest, hrest, heq⟩ := h
    obtain rfl : result :: rest = results := Except.ok.inj heq
    rw [List.length_cons, ih hrest, List.length_cons]

theorem decodeSQLBatch_count {lib : Library} {value : ByteString}
    {commands : List (SQLCommand lib.Float)} (h : decodeSQLBatch lib value = .ok (some commands)) :
    commands.length ≤ maxSQLCommandsPerDecidedValue := by
  unfold decodeSQLBatch at h
  split at h
  · cases h
  split at h
  · cases h
  simp only [bind_eq_ok] at h
  obtain ⟨items, -, _, -, _, hcount, commands', hjobs, hsome⟩ := h
  cases Except.ok.inj hsome
  rw [length_of_mapM_ok hjobs]
  exact require_eq_ok.mp hcount

/-- Why a batch is not applied. -/
inductive ApplyError where
  | underflow
  | envelopeCounter
  | appeared
  | bounds
  | gap
  | conflict
  | other (message : String)

def apply {α : Type} (outcome : Checked α) : Except ApplyError α :=
  outcome.mapError .other

@[simp] theorem apply_ok {α : Type} (value : α) : apply (.ok value) = .ok value := rfl

theorem apply_eq_ok {α : Type} {outcome : Checked α} {value : α} :
    apply outcome = .ok value ↔ outcome = .ok value := by
  cases outcome with
  | error => constructor <;> intro h <;> cases h
  | ok => simp

inductive MutationKind where
  | sql
  | kv
  | notify
  deriving DecidableEq

/-- A command that was executed rather than recognised as executed before. -/
structure Effect where
  slot : ℕ
  kind : MutationKind
  requestID : ByteString
  deriving DecidableEq

structure NotifyReceipt where
  fingerprint : ValueHash
  slot : ℕ

namespace SQLReceiptRetentionUsage

def valid (usage : SQLReceiptRetentionUsage) (window : ℕ) : Bool :=
  usage.resultBytes ≤ maxRetainedSQLResultBytes ∧
    usage.receipts ≤ maxSQLCommandsPerDecidedValue * window

def remove (usage : SQLReceiptRetentionUsage) (resultBytes receipts : ℕ) :
    Except ApplyError SQLReceiptRetentionUsage :=
  if usage.resultBytes < resultBytes ∨ usage.receipts < receipts then .error .underflow
  else .ok ⟨usage.resultBytes - resultBytes, usage.receipts - receipts⟩

end SQLReceiptRetentionUsage

def notifyFingerprint (codec : Codec) (command : NotifyCommand) : ValueHash :=
  let item := (encodeNotifyCommand { command with requestID := [] }).drop notifyCommandMagic.length
  codec.sha256 (coreBytes (bytesOf "rhiza/notify" ++ 0 :: item))

/-- The memory that a result takes while its receipt waits. -/
def sqlResultWorkingBytes (result : SQLCommandResult) : ℕ :=
  let charges := result.statements.flatMap fun statement =>
    maxSQLStatementCharge :: statement.columns.map (maxSQLColumnCharge + ·.length) ++
      statement.rows.flatMap fun row =>
        (maxSQLRowCharge + row.length * maxSQLCellCharge) :: row.map sqlValueSize
  charges.foldl
    (fun size charge =>
      if maxResultBytes < size + charge then maxResultBytes + 1 else size + charge)
    0

section Apply

variable (site : Site)

/-- The tables of the database. -/
structure Store where
  database : site.engine.Database
  kv : KVStore
  notify : Table ByteString NotifyReceipt
  sql : Table ByteString ReceiptRow
  usage : SQLReceiptRetentionUsage
  tip : ℕ
  tipHash : ValueHash
  stateTip : ℕ

/-- A receipt of the running batch. It stays in the list when it is written to the table. -/
structure PendingSQLReceipt where
  requestID : ByteString
  row : ReceiptRow
  persisted : Bool

/-- The state of a batch. -/
structure Working where
  store : Store site
  prepared : Prepared
  pending : List PendingSQLReceipt
  pendingBytes : ℕ
  effects : List Effect

variable {site}

def insertReceiptsIfAbsent : List PendingSQLReceipt → Table ByteString ReceiptRow →
    Except ApplyError (Table ByteString ReceiptRow)
  | [], table => .ok table
  | pending :: rest, table =>
    if (table.lookup pending.requestID).isSome then .error .appeared
    else insertReceiptsIfAbsent rest (table.insert pending.requestID pending.row)

namespace Working

/-- The receipts that are not in the table yet. -/
def waiting (working : Working site) : List PendingSQLReceipt :=
  working.pending.dropWhile (·.persisted)

def flushPendingSQLReceipts (working : Working site) : Except ApplyError (Working site) :=
  if working.waiting = [] then .ok working
  else do
    let sql ← insertReceiptsIfAbsent working.waiting working.store.sql
    .ok { working with
      store := { working.store with sql }
      pending := working.pending.map ({ · with persisted := true })
      pendingBytes := 0 }

/-- Deletes the receipts that the slot is too late for. -/
def pruneReceipts (slot : ℕ) (working : Working site) : Except ApplyError (Working site) :=
  if slot ≤ site.window then .ok working
  else do
    let floor := slot - site.window + 1
    let store := working.store
    let expired := store.sql.values.filter (·.slot < floor)
    let usage ← store.usage.remove (expired.map (·.sqlResult.length)).sum expired.length
    .ok { working with
      store := { store with
        usage
        sql := store.sql.retain (floor ≤ ·.slot)
        notify := store.notify.retain (floor ≤ ·.slot)
        kv := { store.kv with receipts := store.kv.receipts.retain (floor ≤ ·.slot) } } }

/-- Keeps the receipt of an executed command; its result counts against the retained bytes. A
result that finds no room undoes the command. -/
def keepReceipt (slot : ℕ) (fingerprint : ValueHash) (command : SQLCommand site.lib.Float)
    (prepared : Prepared) (outcome : site.Outcome) (working : Working site) :
    Except ApplyError (Working site) := do
  let store := working.store
  let (result, database) := outcome.toOption.getD (noResult, store.database)
  let storedResult := if keepsResult command then result else noResult
  let encodedResult ← apply (encodeSQLResult storedResult)
  ensure (store.usage.admits 0 site.window = true) .envelopeCounter
  let (database, row, storedResult) :=
    if store.usage.admits encodedResult.length site.window then
      (database, executionReceipt site.engine.toEngine slot fingerprint encodedResult outcome,
        storedResult)
    else (store.database, rejectedReceipt slot fingerprint, noResult)
  let working := { working with
    store := { store with database, usage := store.usage.add row.sqlResult.length }
    prepared
    pending := working.pending ++ [⟨command.requestID, row, false⟩]
    pendingBytes := working.pendingBytes + sqlResultWorkingBytes storedResult
    effects := working.effects ++ [⟨slot, .sql, command.requestID⟩] }
  if maxMutationResultBytes ≤ working.pendingBytes then working.flushPendingSQLReceipts
  else .ok working

end Working

/-- How a command of a slot is executed. It fails where the batch cannot go on. -/
abbrev Execution (site : Site) := ℕ → ℕ → Prepared → site.engine.Database →
  SQLCommand site.lib.Float → Except ApplyError (Prepared × site.Outcome)

/-- Execution without a local fault. -/
def Site.execution (site : Site) : Execution site := fun _ _ prepared database command =>
  .ok (runSQLCommand site.engine prepared database command)

variable (execution : Execution site) (bloom : SQLReceiptBloom)

namespace Working

def executeSQL (slot index : ℕ) (fingerprint : ValueHash) (command : SQLCommand site.lib.Float)
    (working : Working site) : Except ApplyError (Working site) := do
  let (prepared, outcome) ←
    execution slot index working.prepared working.store.database command
  match outcome with
  | .error .policyState => .error (.other "SQL policy state is lost")
  | .error failure =>
    if command.requestID = [] then .error (.other "SQL command failed")
    else working.keepReceipt slot fingerprint command prepared (.error failure)
  | .ok (result, database) =>
    if command.requestID = [] then
      .ok { working with store := { working.store with database }, prepared }
    else working.keepReceipt slot fingerprint command prepared (.ok (result, database))

/-- Whether the command was executed before, in this batch or in an earlier one. -/
def known (requestID : ByteString) (working : Working site) : Except ApplyError Bool :=
  if requestID = [] then .ok false
  else if working.pending.any (·.requestID = requestID) then .ok true
  else if bloom.mightContain site.codec site.window requestID working.store.tip then
    match working.store.sql.lookup requestID with
    | some row => do
      let _ ← apply (scanReceipt site.window row)
      .ok true
    | none => .ok false
  else .ok false

def applySQL (slot index : ℕ) (command : SQLCommand site.lib.Float) (working : Working site) :
    Except ApplyError (Working site) := do
  apply (validateSQLCommand site.lib command)
  let fingerprint ← apply
    (orElseError "encode SQL request" (sqlFingerprint site.lib site.codec command))
  if ← working.known bloom command.requestID then .ok working
  else working.executeSQL execution slot index fingerprint command

def applyAllSQL (slot : ℕ) : ℕ → List (SQLCommand site.lib.Float) → Working site →
    Except ApplyError (Working site)
  | _, [], working => .ok working
  | index, command :: rest, working => do
    let working ← working.applySQL execution bloom slot index command
    applyAllSQL slot (index + 1) rest working

def applyOneKV (slot : ℕ) (command : KVCommand) (working : Working site) :
    Except ApplyError (Working site) := do
  let kv ← apply (applyKV site.codec site.scan slot command working.store.kv)
  .ok { working with
    store := { working.store with kv }
    effects := working.effects ++
      if (working.store.kv.receipts.lookup command.requestID).isSome then []
      else [⟨slot, .kv, command.requestID⟩] }

def applyNotify (slot : ℕ) (command : NotifyCommand) (working : Working site) :
    Except ApplyError (Working site) := do
  apply (checkNotify command)
  if (working.store.notify.lookup command.requestID).isSome then .ok working
  else
    let receipt := ⟨notifyFingerprint site.codec command, slot⟩
    .ok { working with
      store := { working.store with
        notify := working.store.notify.insert command.requestID receipt }
      effects := working.effects ++ [⟨slot, .notify, command.requestID⟩] }

def applyPayload (slot : ℕ) (working : Working site) :
    Payload site.lib.Float → Except ApplyError (Working site)
  | .sql commands => working.applyAllSQL execution bloom slot 0 commands
  | .kv commands => commands.foldlM (fun working command => working.applyOneKV slot command) working
  | .notify command => working.applyNotify slot command
  | .graph | .control => .ok working

/-- Removes expired receipts before the value of a slot. -/
def expire (slot : ℕ) (payload : Payload site.lib.Float) (working : Working site) :
    Except ApplyError (Working site) :=
  if site.managed then
    if payload.isControl then .ok working
    else do
      let working ← working.flushPendingSQLReceipts
      working.pruneReceipts slot
  else working.pruneReceipts slot

/-- Moves the position to the slot. -/
def advance (slot : ℕ) (value : ByteString) (mutates : Bool) (working : Working site) :
    Working site :=
  { working with
    store := { working.store with
      tip := slot
      tipHash := site.codec.sha256 (coreBytes value)
      stateTip := if mutates then slot else working.store.stateTip } }

def applyValue (slot : ℕ) (value : ByteString) (working : Working site) :
    Except ApplyError (Working site) := do
  let payload ← apply (site.decode value)
  let working ← working.expire slot payload
  let working ← working.applyPayload execution bloom slot payload
  .ok (working.advance slot value payload.mutatesState)

def applyDecisions : List (ℕ × ByteString) → Working site → Except ApplyError (Working site)
  | [], working => .ok working
  | (slot, value) :: rest, working =>
    if slot ≤ working.store.tip then
      if slot = working.store.tip ∧ site.codec.sha256 (coreBytes value) ≠ working.store.tipHash then
        .error .conflict
      else applyDecisions rest working
    else if slot ≠ working.store.tip + 1 then .error .gap
    else do
      let working ← working.applyValue execution bloom slot value
      applyDecisions rest working

end Working

/-! ## The materializer -/

def recentSQLReceiptLimit : ℕ := 4096

variable (site) in
/-- An open materializer: its tables, the filter over its receipts, and the last receipts. -/
structure State where
  store : Store site
  bloom : SQLReceiptBloom
  /-- The last receipts, without their results. -/
  recent : Table ByteString ReceiptRow

/-- Adds the receipts of a batch to the last ones. -/
def remember (recent : Table ByteString ReceiptRow) (pending : List PendingSQLReceipt) :
    Table ByteString ReceiptRow :=
  let kept := pending.drop (pending.length - recentSQLReceiptLimit)
  kept.foldl (fun recent receipt =>
      recent.insert receipt.requestID { receipt.row with sqlResult := [] })
    (if recentSQLReceiptLimit < recent.entries.length + kept.length then ∅ else recent)

namespace State

/-- A batch begins with nothing compiled and no receipt waiting. -/
def begin (materializer : State site) : Working site :=
  { store := materializer.store, prepared := ∅, pending := [], pendingBytes := 0, effects := [] }

/-- Applies a batch. A batch that fails leaves everything as it was. -/
def applyBatch (decisions : List (ℕ × ByteString)) (materializer : State site) :
    Except ApplyError (State site × List Effect) := do
  apply (requireAll (fun decision => site.policy decision.2) decisions)
  if decisions = [] then .ok (materializer, [])
  else
    let working ← materializer.begin.applyDecisions execution materializer.bloom decisions
    let working ← working.flushPendingSQLReceipts
    ensure (working.store.usage.valid site.window = true) .bounds
    .ok ({ store := working.store
           bloom := materializer.bloom.addAll site.codec site.window
             (working.pending.map fun receipt => (receipt.requestID, receipt.row.slot))
           recent := remember materializer.recent working.pending }, working.effects)

end State

end Apply

end Rhiza.Materializer
