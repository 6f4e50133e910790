import Rhiza.Materializer.ExactlyOnce

/-! # Ways of cutting the log

The log is cut into batches, and the process is restarted between some of them. Where no
statement reports outdated columns, all stored receipts can be read and the database can be
opened at the restarts, every way of cutting leads to the same tables.
-/

namespace Rhiza.Materializer

open Foundations Commands

/-- A piece of the log, or a restart before the next one. -/
inductive Cut where
  | batch (count : ℕ) (count_le : count ≤ 256)
  | restart

namespace Cut

/-- The number of slots. -/
def total : List Cut → ℕ
  | [] => 0
  | .batch count _ :: rest => count + total rest
  | .restart :: rest => total rest

/-- The calls that apply the pieces from a slot on, without faults. -/
def events (site : Site) : (first : ℕ) → 0 < first → List Cut → List (Event site)
  | _, _, [] => []
  | first, hpos, .batch count count_le :: rest =>
    .applyBatch ⟨site.execution, first, count, hpos, count_le⟩ ::
      events site (first + count) (by omega) rest
  | first, hpos, .restart :: rest => .restart :: events site first hpos rest

end Cut

variable {site : Site}

namespace Node

/-- The run along the cuts applies all of their slots and leads to the state. -/
def AppliesAll (log : ℕ → ByteString) (database : site.engine.Database) (cuts : List Cut)
    (node : Node site) : Prop :=
  runFrom (Node.step log) (fresh database) (Cut.events site 1 Nat.one_pos cuts) = some node ∧
    node.tip = Cut.total cuts

/-- No statement of the batch that returns rows was compiled before a change of its columns, and
all stored receipts can be read; at a restart, no request id begins with a NUL. -/
def Undisturbed (log : ℕ → ByteString) (node : Node site) : Event site → Prop
  | .applyBatch batch =>
    Event.Meets (fun _ => Working.Current) log node (.applyBatch batch) ∧
      ¬ node.materializer.store.Unreadable
  | .restart => ∀ requestID row, node.materializer.store.sql.lookup requestID = some row →
      requestID.headD 0 ≠ 0

variable {log : ℕ → ByteString} {database : site.engine.Database} {node : Node site} {first : ℕ}

theorem Undisturbed.permitted {count : ℕ} {hpos : 0 < first} {hcount : count ≤ 256}
    (h : node.Undisturbed log (.applyBatch ⟨site.execution, first, count, hpos, hcount⟩)) :
    Event.Permitted Ledger.exactOutcome log node
      (.applyBatch ⟨site.execution, first, count, hpos, hcount⟩) :=
  Working.Meets.imp (fun _ _ _ _ => Working.Current.permitted) h.1

/-- The outcomes along the cuts are those of the engine. -/
theorem guarded_permitted (hpos : 0 < first) (cuts : List Cut)
    (h : Guarded (Node.step log) (Undisturbed log) node (Cut.events site first hpos cuts)) :
    Guarded (Node.step log) (Event.Permitted Ledger.exactOutcome log) node
      (Cut.events site first hpos cuts) := by
  induction cuts generalizing node first with
  | nil => exact trivial
  | cons cut rest ih =>
    cases cut with
    | batch =>
      exact ⟨h.1.permitted, fun next hnext => ih _ (h.2 next hnext)⟩
    | restart => exact ⟨trivial, fun next hnext => ih _ (h.2 next hnext)⟩

/-- From a state on the way to the final ledger, the rest of the cuts leads there. -/
theorem Reached.exists_run (hreach : node.Reached Ledger.exactOutcome log database)
    {final : Ledger site}
    (hsteps : Relation.ReflTransGen (Ledger.Step Ledger.exactOutcome log) node.ledger final)
    (hrule : ∀ slot, 0 < slot → slot ≤ final.tip → site.policy (log slot) = .ok ())
    (cuts : List Cut) (hpos : 0 < first) (hfirst : first = node.tip + 1)
    (hfinal : final.tip = node.tip + Cut.total cuts)
    (hguarded : Guarded (Node.step log) (Undisturbed log) node
      (Cut.events site first hpos cuts)) :
    ∃ last, runFrom (Node.step log) node (Cut.events site first hpos cuts) = some last ∧
      last.Reached Ledger.exactOutcome log database ∧ last.ledger = final := by
  induction cuts generalizing node first with
  | nil =>
    refine ⟨node, rfl, hreach, ?_⟩
    exact Ledger.eq_of_steps Ledger.exactOutcome_deterministic .refl hsteps hfinal.symm
  | cons cut rest ih =>
    cases cut with
    | batch count count_le =>
      obtain ⟨hguard, hrest⟩ := hguarded
      have hmay := hguard.permitted
      rw [Cut.total] at hfinal
      have htip := hreach.applyBatch_complete Ledger.exactOutcome_deterministic rfl hmay
        hguard.2 hfirst.le hsteps (by dsimp only; omega) hrule
      dsimp only at htip
      obtain ⟨hnext, hmoved⟩ := hreach.step hmay rfl
      have hle : (node.applyBatch log ⟨site.execution, first, count, hpos, count_le⟩).ledger.tip ≤
          final.tip := by
        change (node.applyBatch log _).tip ≤ _
        omega
      have hahead := Ledger.steps_unique Ledger.exactOutcome_deterministic hmoved hsteps hle
      obtain ⟨last, hrun, hlast⟩ := ih hnext hahead (by omega) (by omega) (by omega)
        (hrest _ rfl)
      exact ⟨last, runFrom_cons.mpr ⟨_, rfl, hrun⟩, hlast⟩
    | restart =>
      obtain ⟨hguard, hrest⟩ := hguarded
      have hload := (hreach.sound.load_iff hreach.proper).mpr hguard
      obtain ⟨m, hopen⟩ : ∃ m, openMaterializer node.materializer.store = .ok m := by
        rw [openMaterializer, hload]
        exact ⟨_, rfl⟩
      have hstep : node.step log .restart = some { node with materializer := m } := by
        rw [Node.step, hopen]
        rfl
      obtain ⟨hstore, -⟩ := hreach.sound.open hopen
      have hrestart : Event.Permitted Ledger.exactOutcome log node .restart := trivial
      obtain ⟨hnext, -⟩ := hreach.step hrestart hstep
      have hbook : ({ node with materializer := m } : Node site).ledger = node.ledger := by
        rw [Node.ledger, hstore, Node.ledger]
      have htip : ({ node with materializer := m } : Node site).tip = node.tip := by
        rw [Node.tip, hstore, Node.tip]
      obtain ⟨last, hrun, hlast⟩ := ih hnext (by rw [hbook]; exact hsteps) hpos
        (by rw [htip]; exact hfirst) (by rw [htip]; exact hfinal) (hrest _ hstep)
      exact ⟨last, runFrom_cons.mpr ⟨_, hstep, hrun⟩, hlast⟩

/-- Sound states with the same ledger have the same tables and counters. -/
theorem Reached.store_eq {allowed allowed' : Ledger.Allowed site} {node' : Node site}
    (hreach : node.Reached allowed log database)
    (hreach' : node'.Reached allowed' log database) (hbook : node'.ledger = node.ledger) :
    node'.materializer.store = node.materializer.store := by
  have husage := hreach.sound.usage
  have husage' := hreach'.sound.usage
  obtain ⟨⟨⟨database, kv, notify, sql, usage, tip, tipHash, stateTip⟩, _, _⟩, _⟩ := node
  obtain ⟨⟨⟨database', kv', notify', sql', usage', tip', tipHash', stateTip'⟩, _, _⟩, _⟩ := node'
  simp only [Node.ledger, Store.ledger, Ledger.mk.injEq] at hbook
  obtain ⟨rfl, rfl, rfl, rfl, rfl, rfl, rfl, -⟩ := hbook
  simp only at husage husage'
  rw [husage, husage']

/-- Two undisturbed ways of cutting the log: if one gets through, so does the other, and both
end with the same tables, receipts, counters and position. -/
theorem splits_agree {cuts cuts' : List Cut} (htotal : Cut.total cuts' = Cut.total cuts)
    (hguarded : Guarded (Node.step log) (Undisturbed log) (fresh database)
      (Cut.events site 1 Nat.one_pos cuts))
    (hguarded' : Guarded (Node.step log) (Undisturbed log) (fresh database)
      (Cut.events site 1 Nat.one_pos cuts'))
    (happlies : AppliesAll log database cuts node) :
    ∃ node', AppliesAll log database cuts' node' ∧
      node'.materializer.store = node.materializer.store := by
  obtain ⟨hrun, htip⟩ := happlies
  obtain ⟨hreached, -⟩ := reached_fresh.run (guarded_permitted _ cuts hguarded) hrun
  have hfinal : node.ledger.tip = (fresh database).tip + Cut.total cuts' := by
    change node.tip = 0 + _
    omega
  obtain ⟨node', hrun', hreached', hledger⟩ := reached_fresh.exists_run hreached.settled
    hreached.sanctioned cuts' Nat.one_pos rfl hfinal hguarded'
  have hstore := hreached.store_eq hreached' hledger
  refine ⟨node', ⟨hrun', ?_⟩, hstore⟩
  rw [Node.tip, hstore, htotal]
  exact htip

end Node

/-! ## A column that is renamed -/

/-- A table with one column, which is renamed by every statement that returns no rows. -/
def renamable : SQLite Library.whole.Float where
  Database := Bool
  migrate renamed _ := .ok (false, renamed)
  query renamed _ _ := .ok (⟨[bytesOf (if renamed then "b" else "a")], []⟩, renamed)
  exec _ _ _ := .ok (⟨0, 0⟩, true)
  compiles _ _ := true
  steps _ _ _ := true
  columns renamed _ := [bytesOf (if renamed then "b" else "a")]
  query_columns := by
    intro database results statement returned database' h
    cases h
    rfl

def renameCommand (requestID : String) : SQLCommand Library.whole.Float :=
  { requestID := bytesOf requestID, sql := bytesOf "ALTER TABLE t RENAME COLUMN a TO b", args := []
    wantRows := false, requireOne := false, statements := [], migration := none }

/-- Rows are deleted and returned, the column is renamed, and rows are deleted again. -/
def renameLog : ℕ → ByteString
  | 1 => sqlValue [returnAll]
  | 2 => sqlValue [renameCommand "r2"]
  | _ => sqlValue [{ returnAll with requestID := bytesOf "r3" }]

def Cut.one : Cut := .batch 1 Batch.one_le

def Cut.three : Cut := .batch 3 (by decide)

/-- The run along the cuts and what it stores as the result of the last command. -/
def renameRun (cuts : List Cut) : Option (Node (plainSite renamable)) :=
  runFrom (Node.step renameLog) (Node.fresh false) (Cut.events _ 1 Nat.one_pos cuts)

def renameResult (node : Node (plainSite renamable)) : Option ByteString :=
  (node.materializer.store.sql.lookup (bytesOf "r3")).map (·.sqlResult)

/-- In one batch the last command returns the column by its old name, in three by its new one. -/
theorem splits_disagree_rename :
    ∃ node node' : Node (plainSite renamable),
      Node.AppliesAll renameLog false [.three] node ∧
      Node.AppliesAll renameLog false [.one, .one, .one] node' ∧
      node'.materializer.store ≠ node.materializer.store := by
  obtain ⟨node, hnode, node', hnode', htip, htip', hresult⟩ :
      ∃ node, renameRun [.three] = some node ∧
        ∃ node', renameRun [.one, .one, .one] = some node' ∧
          node.tip = 3 ∧ node'.tip = 3 ∧ renameResult node' ≠ renameResult node := by
    decide +kernel
  refine ⟨node, node', ⟨hnode, htip⟩, ⟨hnode', htip'⟩, fun hstore => hresult ?_⟩
  rw [renameResult, hstore, renameResult]

/-! ## One request again and again -/

def deleteLog : ℕ → ByteString := fun _ => sqlValue [deleteCommand (bytesOf "r1")]

theorem decode_deleteLog (slot : ℕ) :
    (plainSite quiet).decode (deleteLog slot) = .ok (.sql [deleteCommand (bytesOf "r1")]) := by
  obtain ⟨payload, hpay, hplain⟩ : ∃ payload, decodeValue .whole Proposal.plainControls
      (sqlValue [deleteCommand (bytesOf "r1")]) = .ok payload ∧
        isSingle (bytesOf "r1") (bytesOf "DELETE FROM t") false payload = true := by
    decide +kernel
  exact hpay.trans (congrArg _ (eq_of_isSingle hplain))

/-- Receipts without results, of ids that begin with a character. -/
def plainReceipts (node : Node (plainSite quiet)) : Bool :=
  node.materializer.store.sql.entries.all fun entry =>
    entry.2.sqlResult.isEmpty && entry.1.headD 0 != 0

theorem undisturbed_delete {node : Node (plainSite quiet)} (event : Event (plainSite quiet))
    (hplain : plainReceipts node = true) : node.Undisturbed deleteLog event := by
  have hentry : ∀ requestID row, node.materializer.store.sql.lookup requestID = some row →
      row.sqlResult = [] ∧ requestID.headD 0 ≠ 0 := by
    intro requestID row hrow
    have hall := List.all_eq_true.mp hplain ⟨requestID, row⟩ (AList.mem_lookup_iff.mp hrow)
    simpa using hall
  cases event with
  | applyBatch =>
    refine ⟨Working.meetsDecisions_of_values ?_ _, ?_⟩
    · intro decision hmem working payload expired hgot _
      obtain ⟨slot, -, rfl⟩ := List.mem_map.mp hmem
      cases hgot.symm.trans (decode_deleteLog slot)
      exact ⟨fun _ database _ => ⟨nofun, fun _ _ _ _ => trivial⟩, fun _ _ => trivial⟩
    · rintro ⟨requestID, row, message, hrow, hscan⟩
      rw [scanReceipt, if_pos (hentry requestID row hrow).1] at hscan
      cases hscan
  | restart => exact fun requestID row hrow => (hentry requestID row hrow).2

theorem splits_agree_delete : ∃ node node' : Node (plainSite quiet),
    Node.AppliesAll deleteLog () [.three] node ∧
      Node.AppliesAll deleteLog () [.one, .restart, .one, .one] node' ∧
      node'.materializer.store = node.materializer.store := by
  have hguarded : ∀ cuts ∈ [[.three], [.one, .restart, .one, .one]],
      Guarded (Node.step deleteLog) (Node.Undisturbed deleteLog) (Node.fresh ())
        (Cut.events (plainSite quiet) 1 Nat.one_pos cuts) := by
    intro cuts hmem
    have hplain : Guarded (Node.step deleteLog) (fun node _ => plainReceipts node = true)
        (Node.fresh ()) (Cut.events (plainSite quiet) 1 Nat.one_pos cuts) := by
      simp only [List.mem_cons, List.not_mem_nil, or_false] at hmem
      obtain rfl | rfl := hmem <;> decide +kernel
    exact hplain.imp fun node event => undisturbed_delete event
  obtain ⟨node, happlies⟩ : ∃ node : Node (plainSite quiet),
      Node.AppliesAll deleteLog () [.three] node := by
    unfold Node.AppliesAll
    decide +kernel
  have htotal : Cut.total [.one, .restart, .one, .one] = Cut.total [.three] := rfl
  obtain ⟨node', happlies', hstore⟩ := Node.splits_agree htotal
    (hguarded _ (by simp)) (hguarded _ (by simp)) happlies
  exact ⟨node, node', happlies, happlies', hstore⟩

end Rhiza.Materializer
