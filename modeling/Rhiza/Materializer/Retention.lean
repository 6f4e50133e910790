import Rhiza.Materializer.Runs

/-! # What was committed can be opened again

The counters of the receipts are right in every reached state, and no batch fails over them.
Opening the database counts the characters of the request ids, where accepting a command counts
bytes: an id that begins with a NUL is accepted and has no characters.
-/

namespace Rhiza.Materializer

open Foundations Commands

variable {site : Site}

namespace Node

/-- The counters are those of the stored receipts and within their bounds, the next batch does
not fail over them, and the database can be opened. -/
structure Reopens (log : ℕ → ByteString) (node : Node site) : Prop where
  receipts : node.materializer.store.usage.receipts = node.materializer.store.sql.values.length
  resultBytes : node.materializer.store.usage.resultBytes =
    (node.materializer.store.sql.values.map (·.sqlResult.length)).sum
  bytes_le : node.materializer.store.usage.resultBytes ≤ maxRetainedSQLResultBytes
  receipts_le :
    node.materializer.store.usage.receipts ≤ maxSQLCommandsPerDecidedValue * site.window
  counters : ∀ first count error, 0 < first → count ≤ 256 →
    node.materializer.applyBatch site.execution (slice log first count) = .error error →
      error ≠ .envelopeCounter ∧ error ≠ .underflow
  loads : loadSQLReceiptRetention node.materializer.store = .ok ()

variable {log : ℕ → ByteString} {database : site.engine.Database} {events : List (Event site)}
  {node : Node site}

/-- Whatever batches committed can be opened again, unless a request id begins with a NUL. -/
theorem reopens_iff (hrun : runFrom (Node.step log) (fresh database) events = some node) :
    node.Reopens log ↔ ∀ requestID row,
      node.materializer.store.sql.lookup requestID = some row → requestID.headD 0 ≠ 0 := by
  have hreached := reached_any hrun
  have hsound := hreached.sound
  have hload := hsound.load_iff hreached.proper
  refine ⟨fun hreopens => hload.mp hreopens.loads, fun hhead => ?_⟩
  refine ⟨?_, ?_, ?_, ?_, ?_, hload.mpr hhead⟩
  · rw [hsound.usage]
    rfl
  · rw [hsound.usage]
    rfl
  · rw [hsound.usage]
    exact hsound.tallied.bytes
  · rw [hsound.usage]
    exact hsound.tallied.total
  · intro first count error hpos hcount herror
    obtain ⟨hordinary, -⟩ := hsound.applyBatch_error hpos hcount hreached.tipHash
      (Working.permitted_any ..) herror
    constructor <;> rintro rfl <;> cases hordinary

end Node

/-! ## A request id of one NUL -/

theorem decodeValue_count {lib : Library} {controls : Controls} {value : ByteString}
    {commands : List (SQLCommand lib.Float)}
    (h : decodeValue lib controls value = .ok (.sql commands)) :
    commands.length ≤ maxSQLCommandsPerDecidedValue := by
  simp only [decodeValue, bind_eq_ok] at h
  obtain ⟨graph, -, notify, -, kv, -, kvBatch, -, batch, hbatch, control, -, h⟩ := h
  split at h
  · cases h
  · cases h
  · cases h
  · split at h
    · cases h
    split at h
    · cases h
    split at h
    · cases h
      exact decodeSQLBatch_count hbatch
    · cases h

/-- A materializer with the decoders of the repository and the smallest window. -/
def plainSite (engine : SQLite Library.whole.Float) : Site where
  lib := .whole
  engine
  codec := .tabled []
  scan := ⟨id, fun _ => .refl _⟩
  window := 1024
  managed := false
  policy _ := .ok ()
  decode := decodeValue .whole Proposal.plainControls
  window_bounds := by decide
  decode_count _ _ := decodeValue_count

/-- A database that runs every statement without a change. -/
def quiet : SQLite Library.whole.Float where
  Database := Unit
  migrate _ _ := .ok (false, ())
  query _ _ _ := .ok (⟨[], []⟩, ())
  exec _ _ _ := .ok (⟨0, 0⟩, ())
  compiles _ _ := true
  steps _ _ _ := true
  columns _ _ := []
  query_columns := by
    intro database results statement returned database' h
    cases h
    rfl

def deleteCommand (requestID : ByteString) : SQLCommand Library.whole.Float :=
  { requestID, sql := bytesOf "DELETE FROM t", args := []
    wantRows := false, requireOne := false, statements := [], migration := none }

/-- The value that decides the commands. -/
def sqlValue (commands : List (SQLCommand Library.whole.Float)) : ByteString :=
  assembleBatch sqlBatchMagic (commands.filterMap (encodeSQLBatchItem .whole))

def plainBatch (engine : SQLite Library.whole.Float) (first : ℕ) (hpos : 0 < first) :
    Batch (plainSite engine) where
  execution := (plainSite engine).execution
  first
  count := 1
  first_pos := hpos
  count_le := Batch.one_le

/-- The state after one command. -/
def deleteRun (requestID : ByteString) : Option (Node (plainSite quiet)) :=
  runFrom (Node.step fun _ => sqlValue [deleteCommand requestID]) (Node.fresh ())
    [.applyBatch (plainBatch quiet 1 (by decide))]

theorem not_reopens_nul : ∃ node, deleteRun [0] = some node ∧
    ¬ node.Reopens fun _ => sqlValue [deleteCommand [0]] := by
  obtain ⟨node, hnode, hkeys⟩ : ∃ node, deleteRun [0] = some node ∧
      node.materializer.store.sql.keys = [[0]] := by decide +kernel
  have hstored : [0] ∈ node.materializer.store.sql.keys := by
    rw [hkeys]
    exact List.mem_singleton.mpr rfl
  obtain ⟨row, hrow⟩ := (Table.mem_keys_iff ..).mp hstored
  refine ⟨node, hnode, fun hreopens => ?_⟩
  have hall := hreopens.loads
  simp only [loadSQLReceiptRetention, bind_eq_ok] at hall
  obtain ⟨_, -, _, hall, -⟩ := hall
  have hwithin := List.all_eq_true.mp (require_eq_ok.mp hall) ⟨[0], row⟩
    (AList.mem_lookup_iff.mp hrow)
  have hlength : textLength [0] = 0 := rfl
  exact of_decide_eq_true hwithin (.inl hlength)

theorem reopens_delete : ∃ node, deleteRun (bytesOf "r1") = some node ∧
    node.Reopens fun _ => sqlValue [deleteCommand (bytesOf "r1")] := by
  obtain ⟨node, hnode, hkeys⟩ : ∃ node, deleteRun (bytesOf "r1") = some node ∧
      node.materializer.store.sql.keys = [bytesOf "r1"] := by decide +kernel
  refine ⟨node, hnode, (Node.reopens_iff hnode).mpr fun requestID row hrow => ?_⟩
  have hmem := (Table.mem_keys_iff ..).mpr ⟨row, hrow⟩
  rw [hkeys] at hmem
  rw [List.mem_singleton.mp hmem]
  decide

end Rhiza.Materializer
