import Rhiza.Materializer.Batch

/-! # What a batch leaves in the tables

The same work without waiting receipts, filter and counters: each value is settled on its own,
and a receipt is in the table as soon as its command is executed. How a command turns out is
left open here, up to a condition on the outcomes that may occur.
-/

namespace Rhiza.Materializer

open Foundations Commands

/-- The tables, with the receipts that wait, and the commands executed so far. -/
structure Ledger (site : Site) where
  database : site.engine.Database
  kv : KVStore
  notify : Table ByteString NotifyReceipt
  sql : Table ByteString ReceiptRow
  tip : ℕ
  tipHash : ValueHash
  stateTip : ℕ
  effects : List Effect

/-- What the counters count. -/
def usageOf (sql : Table ByteString ReceiptRow) : SQLReceiptRetentionUsage :=
  ⟨(sql.values.map (·.sqlResult.length)).sum, sql.values.length⟩

namespace Ledger

variable {site : Site}

def prune (slot : ℕ) (ledger : Ledger site) : Ledger site :=
  if slot ≤ site.window then ledger
  else
    let floor := slot - site.window + 1
    { ledger with
      sql := ledger.sql.retain (floor ≤ ·.slot)
      notify := ledger.notify.retain (floor ≤ ·.slot)
      kv := { ledger.kv with receipts := ledger.kv.receipts.retain (floor ≤ ·.slot) } }

def expire (slot : ℕ) (payload : Payload site.lib.Float) (ledger : Ledger site) : Ledger site :=
  if site.managed && payload.isControl then ledger else ledger.prune slot

/-- What SQL commands work on, apart from the batch they are in. -/
def materialized (ledger : Ledger site) : Materialized site.engine.toEngine :=
  ⟨ledger.database, ledger.sql, usageOf ledger.sql, []⟩

/-- The ledger with the database and the receipts that a command leaves. -/
def concluded (slot : ℕ) (requestID : ByteString) (state : Materialized site.engine.toEngine)
    (ledger : Ledger site) : Ledger site :=
  { ledger with
    database := state.database
    sql := state.receipts
    effects := ledger.effects ++ if requestID = [] then [] else [⟨slot, .sql, requestID⟩] }

/-- What an outcome makes of a command that was not executed before. -/
def conclude (slot : ℕ) (fingerprint : ValueHash) (command : SQLCommand site.lib.Float)
    (outcome : site.Outcome) (ledger : Ledger site) : Except ApplyError (Ledger site) := do
  let state ← apply (concludeCommand site.engine.toEngine site.window slot fingerprint command
    outcome ledger.materialized)
  .ok (ledger.concluded slot command.requestID state)

/-- The outcomes a command may have on a database. -/
abbrev Allowed (site : Site) :=
  site.engine.Database → SQLCommand site.lib.Float → site.Outcome → Prop

variable (allowed : Allowed site)

/-- Settles one SQL command. -/
def SettlesSQL (slot : ℕ) (command : SQLCommand site.lib.Float) (ledger ledger' : Ledger site) :
    Prop :=
  validateSQLCommand site.lib command = .ok () ∧
    ∃ fingerprint, sqlFingerprint site.lib site.codec command = some fingerprint ∧
      if command.requestID ≠ [] ∧ (ledger.sql.lookup command.requestID).isSome then
        ledger' = ledger
      else ∃ outcome, allowed ledger.database command outcome ∧
        ledger.conclude slot fingerprint command outcome = .ok ledger'

def SettlesAllSQL (slot : ℕ) : List (SQLCommand site.lib.Float) → Ledger site → Ledger site → Prop
  | [], ledger, ledger' => ledger' = ledger
  | command :: rest, ledger, ledger' => ∃ middle,
    SettlesSQL allowed slot command ledger middle ∧ SettlesAllSQL slot rest middle ledger'

def settleKV (slot : ℕ) (command : KVCommand) (ledger : Ledger site) :
    Except ApplyError (Ledger site) := do
  let kv ← apply (applyKV site.codec site.scan slot command ledger.kv)
  .ok { ledger with
    kv
    effects := ledger.effects ++
      if (ledger.kv.receipts.lookup command.requestID).isSome then []
      else [⟨slot, .kv, command.requestID⟩] }

def settleNotify (slot : ℕ) (command : NotifyCommand) (ledger : Ledger site) :
    Except ApplyError (Ledger site) := do
  apply (checkNotify command)
  if (ledger.notify.lookup command.requestID).isSome then .ok ledger
  else
    let receipt := ⟨notifyFingerprint site.codec command, slot⟩
    .ok { ledger with
      notify := ledger.notify.insert command.requestID receipt
      effects := ledger.effects ++ [⟨slot, .notify, command.requestID⟩] }

def SettlesPayload (slot : ℕ) (ledger ledger' : Ledger site) : Payload site.lib.Float → Prop
  | .sql commands => SettlesAllSQL allowed slot commands ledger ledger'
  | .kv commands =>
    commands.foldlM (fun ledger command => ledger.settleKV slot command) ledger = .ok ledger'
  | .notify command => ledger.settleNotify slot command = .ok ledger'
  | .graph | .control => ledger' = ledger

def advance (slot : ℕ) (value : ByteString) (mutates : Bool) (ledger : Ledger site) :
    Ledger site :=
  { ledger with
    tip := slot
    tipHash := site.codec.sha256 (coreBytes value)
    stateTip := if mutates then slot else ledger.stateTip }

/-- Settles the value of a slot. -/
def Settles (slot : ℕ) (value : ByteString) (ledger ledger' : Ledger site) : Prop :=
  ∃ payload settled, site.decode value = .ok payload ∧
    SettlesPayload allowed slot (ledger.expire slot payload) settled payload ∧
      ledger' = settled.advance slot value payload.mutatesState

end Ledger

/-! ## Receipts -/

/-- A receipt as commands leave it. -/
structure ReceiptRow.Formed (row : ReceiptRow) : Prop where
  committed : row.committed = true → row.errorCode = .none
  rejected : row.committed = false → row.errorCode ≠ .none ∧ row.sqlResult = []
  result : row.sqlResult = [] ∨
    ∃ result : SQLCommandResult, result.Storable ∧ row.sqlResult = result.bytes

theorem encoded_formed {result : SQLCommandResult} {encoded : ByteString}
    (h : encodeSQLResult result = .ok encoded) :
    encoded = [] ∨ ∃ result : SQLCommandResult, result.Storable ∧ encoded = result.bytes := by
  by_cases hempty : result.statements = []
  · left
    rw [encodeSQLResult, if_pos hempty] at h
    split at h
    · cases h
    · exact (Except.ok.inj h).symm
  · obtain ⟨hbytes, hfits⟩ := (encodeSQLResult_eq_ok hempty).mp h
    exact .inr ⟨result, hfits, hbytes⟩

namespace Ledger

variable {site : Site} {ledger ledger' : Ledger site} {slot : ℕ} {fingerprint : ValueHash}
  {command : SQLCommand site.lib.Float} {outcome : site.Outcome}

theorem keepReceipt_formed {state state' : Materialized site.engine.toEngine}
    {result : SQLCommandResult} {database : site.engine.Database}
    {receipt : ByteString → ReceiptRow}
    (h : keepReceipt site.engine.toEngine site.window slot fingerprint command state result
      database receipt = .ok state')
    (hreceipt : ∀ encoded, encodeSQLResult (if keepsResult command then result else noResult) =
      .ok encoded → (receipt encoded).slot = slot ∧ (receipt encoded).Formed) :
    ∃ row, row.slot = slot ∧ row.Formed ∧
      state'.receipts = state.receipts.insert command.requestID row := by
  simp only [keepReceipt, bind_eq_ok] at h
  obtain ⟨encoded, hencoded, _, -, h⟩ := h
  split at h
  · cases h
    exact ⟨_, (hreceipt encoded hencoded).1, (hreceipt encoded hencoded).2, rfl⟩
  · cases h
    exact ⟨_, rfl, ⟨fun h => (by cases h), fun _ => ⟨fun h => (by cases h), rfl⟩, .inl rfl⟩, rfl⟩

/-- An executed command changes the database, and adds one well-formed receipt of the slot if it
has a request id. -/
theorem conclude_eq_ok (h : ledger.conclude slot fingerprint command outcome = .ok ledger') :
    (command.requestID = [] ∧ ∃ database, ledger' = { ledger with database }) ∨
      command.requestID ≠ [] ∧ ∃ row database, row.slot = slot ∧ row.Formed ∧
        ledger' = { ledger with
          database, sql := ledger.sql.insert command.requestID row
          effects := ledger.effects ++ [⟨slot, .sql, command.requestID⟩] } := by
  simp only [conclude, bind_eq_ok, apply_eq_ok, Except.ok.injEq] at h
  obtain ⟨state, hstate, rfl⟩ := h
  unfold concludeCommand at hstate
  by_cases hid : command.requestID = []
  · have hsame : state.receipts = ledger.sql := by
      simp only [if_pos hid] at hstate
      split at hstate <;> cases hstate
      rfl
    exact .inl ⟨hid, state.database, by rw [concluded, if_pos hid, hsame, List.append_nil]⟩
  simp only [if_neg hid] at hstate
  have hrow : ∃ row, row.slot = slot ∧ row.Formed ∧
      state.receipts = ledger.sql.insert command.requestID row := by
    split at hstate
    · cases hstate
    next failure _ =>
      refine keepReceipt_formed hstate fun encoded hencoded => ⟨rfl, ?_⟩
      obtain rfl : encoded = [] := by
        have hnone : encodeSQLResult noResult = .ok encoded := by
          split at hencoded <;> exact hencoded
        exact (Except.ok.inj hnone).symm
      refine ⟨fun h => (by cases h), fun _ => ⟨fun h => ?_, rfl⟩, .inl rfl⟩
      cases failure <;> cases h
    next =>
      refine keepReceipt_formed hstate fun encoded hencoded => ⟨rfl, ?_⟩
      exact ⟨fun _ => rfl, fun h => (by cases h), encoded_formed hencoded⟩
  obtain ⟨row, hslot, hformed, hreceipts⟩ := hrow
  exact .inr ⟨hid, row, state.database, hslot, hformed, by rw [concluded, if_neg hid, hreceipts]⟩

end Ledger

/-! ## The ledger of a batch -/

variable {site : Site}

def insertAll (receipts : List PendingSQLReceipt) (table : Table ByteString ReceiptRow) :
    Table ByteString ReceiptRow :=
  receipts.foldl (fun table receipt => table.insert receipt.requestID receipt.row) table

/-- The receipt table as it will be when all waiting receipts are written. -/
def Working.merged (working : Working site) : Table ByteString ReceiptRow :=
  insertAll working.waiting working.store.sql

/-- The ledger that a batch stands for, after the commands executed before it. -/
def Working.ledger (earlier : List Effect) (working : Working site) : Ledger site :=
  { database := working.store.database, kv := working.store.kv, notify := working.store.notify
    sql := working.merged, tip := working.store.tip, tipHash := working.store.tipHash
    stateTip := working.store.stateTip, effects := earlier ++ working.effects }

variable {receipts : List PendingSQLReceipt} {table : Table ByteString ReceiptRow}

theorem lookup_insertAll
    {requestID : ByteString} (hvoid : ∀ receipt ∈ receipts, receipt.requestID ≠ requestID) :
    (insertAll receipts table).lookup requestID = table.lookup requestID := by
  induction receipts generalizing table with
  | nil => rfl
  | cons receipt rest ih =>
    obtain ⟨hne, hrest⟩ := List.forall_mem_cons.mp hvoid
    rw [insertAll, List.foldl_cons]
    refine (ih hrest).trans ?_
    rw [Table.lookup_insert_eq, if_neg (Ne.symm hne)]

theorem lookup_insertAll_of_mem {receipt : PendingSQLReceipt}
    (hdist : (receipts.map (·.requestID)).Nodup) (hmem : receipt ∈ receipts) :
    (insertAll receipts table).lookup receipt.requestID = some receipt.row := by
  induction receipts generalizing table with
  | nil => cases hmem
  | cons first rest ih =>
    rw [List.map_cons, List.nodup_cons] at hdist
    rw [insertAll, List.foldl_cons]
    obtain rfl | hrest := List.mem_cons.mp hmem
    · have hothers : ∀ other ∈ rest, other.requestID ≠ receipt.requestID := by
        intro other hother heq
        exact hdist.1 (heq ▸ List.mem_map_of_mem hother)
      refine (lookup_insertAll hothers).trans ?_
      rw [Table.lookup_insert_eq, if_pos rfl]
    · exact ih hdist.2 hrest

/-- Below a first receipt that is written, the others are still absent. -/
theorem absent_insert {receipt : PendingSQLReceipt}
    (hdist : ((receipt :: receipts).map (·.requestID)).Nodup)
    (hvoid : ∀ other ∈ receipts, table.lookup other.requestID = none) :
    ∀ other ∈ receipts,
      (table.insert receipt.requestID receipt.row).lookup other.requestID = none := by
  intro other hother
  rw [List.map_cons, List.nodup_cons] at hdist
  have hne : other.requestID ≠ receipt.requestID :=
    fun heq => hdist.1 (heq ▸ List.mem_map_of_mem hother)
  rw [Table.lookup_insert_eq, if_neg hne]
  exact hvoid other hother

section Insert

variable (hdist : (receipts.map (·.requestID)).Nodup)
  (hvoid : ∀ receipt ∈ receipts, table.lookup receipt.requestID = none)
include hdist hvoid

theorem insertReceiptsIfAbsent_eq :
    insertReceiptsIfAbsent receipts table = .ok (insertAll receipts table) := by
  induction receipts generalizing table with
  | nil => rfl
  | cons receipt rest ih =>
    obtain ⟨hfirst, hrest⟩ := List.forall_mem_cons.mp hvoid
    rw [insertReceiptsIfAbsent, hfirst, if_neg (by simp)]
    exact ih hdist.of_cons (absent_insert hdist hrest)

theorem retain_insertAll {keep : ReceiptRow → Bool}
    (hkeep : ∀ receipt ∈ receipts, keep receipt.row = true) :
    (insertAll receipts table).retain keep = insertAll receipts (table.retain keep) := by
  induction receipts generalizing table with
  | nil => rfl
  | cons receipt rest ih =>
    obtain ⟨hfirst, hrest⟩ := List.forall_mem_cons.mp hvoid
    obtain ⟨hkept, hkeptRest⟩ := List.forall_mem_cons.mp hkeep
    rw [insertAll, List.foldl_cons, insertAll, List.foldl_cons,
      ← Table.retain_insert_of_absent hfirst hkept]
    exact ih hdist.of_cons (absent_insert hdist hrest) hkeptRest

end Insert

end Rhiza.Materializer
