import Rhiza.Materializer.Splits

/-! # Local faults

A statement may fail on one replica and not on the others: the disk is full, memory is short, the
call is cancelled. If the transaction is lost with it, the batch fails and is applied again
later. If the transaction stays open, the command is undone and a receipt says that it was
rejected, as for a command that fails on every replica.
-/

namespace Rhiza.Materializer

open Foundations Commands

/-- How far the statement has come that a local error strikes: its text is compiled or not, the
changes are reset, or it is stepped and its rows are read. -/
inductive Stage where
  | prepare
  | reset
  | step

/-- Where a local error strikes a command. -/
inductive Place where
  | migration
  | statement (index : ℕ) (stage : Stage)

structure Fault where
  place : Place
  /-- Whether the transaction is still open after the error. -/
  openAfter : Bool

variable {site : Site} {command : SQLCommand site.lib.Float}

/-- The compiled statements when the error strikes. -/
def Stage.prepared {lib : Library} (engine : SQLite lib.Float) (prepared : Prepared)
    (database : engine.Database) (sql : ByteString) : Stage → Prepared
  | .prepare => prepared
  | .reset => prepared.compiled engine database sql
  | .step => prepared.stepped engine database sql

/-- The outcome of a command that is struck. -/
def Fault.outcome (fault : Fault) (prepared : Prepared) :
    Except ApplyError (Prepared × site.Outcome) :=
  if fault.openAfter then .ok (prepared, .error (.execution "local error"))
  else .error (.other "transaction is lost")

/-- Executes a command in which a local error strikes the record of the migration or a statement,
unless an earlier statement fails. -/
def Site.struck (site : Site) (fault : Fault) (prepared : Prepared)
    (database : site.engine.Database) (command : SQLCommand site.lib.Float) :
    Except ApplyError (Prepared × site.Outcome) :=
  match fault.place with
  | .migration =>
    if command.migration.isSome then fault.outcome prepared
    else .ok (runSQLCommand site.engine prepared database command)
  | .statement index stage =>
    let statements := command.effective site.lib
    match beginCommand site.engine.toEngine database command, statements[index]? with
    | .ok (false, database), some statement =>
      match runStatements site.engine command.requireOne (statements.take index) database
        prepared [] commandBudget with
      | (prepared, .error failure) => .ok (prepared, .error failure)
      | (prepared, .ok (_, database)) =>
        fault.outcome (stage.prepared site.engine prepared database statement.sql)
    | _, _ => .ok (runSQLCommand site.engine prepared database command)

/-- Execution with a local error in some commands of some slots. -/
def Site.faulty (site : Site) (faults : ℕ → ℕ → Option Fault) : Execution site :=
  fun slot index prepared database command =>
    match faults slot index with
    | none => site.execution slot index prepared database command
    | some fault => site.struck fault prepared database command

/-- What a replica does: it applies a batch, with local errors or without, or is restarted. -/
inductive Attempt (site : Site) where
  | applyBatch (faults : ℕ → ℕ → Option Fault) (first count : ℕ) (first_pos : 0 < first)
      (count_le : count ≤ 256)
  | restart

def Attempt.event : Attempt site → Event site
  | .applyBatch faults first count first_pos count_le =>
    .applyBatch ⟨site.faulty faults, first, count, first_pos, count_le⟩
  | .restart => .restart

namespace Node

/-- The run of a replica. -/
def runAttempts (log : ℕ → ByteString) (database : site.engine.Database)
    (attempts : List (Attempt site)) : Option (Node site) :=
  runFrom (Node.step log) (fresh database) (attempts.map Attempt.event)

/-- The command is executed without a local error that leaves the transaction open, and with
statements that report their columns. -/
def Sheltered (faults : ℕ → ℕ → Option Fault) : Working.Condition site :=
  fun slot index working command => Working.Current slot index working command ∧
    ∀ fault ∈ faults slot index, fault.openAfter = false

/-- The commands that the attempt executes are sheltered. -/
def ShelteredIn (log : ℕ → ByteString) (node : Node site) : Attempt site → Prop
  | .applyBatch faults first count _ _ =>
    node.materializer.begin.Meets (site.faulty faults) node.materializer.bloom
      (Sheltered faults) (slice log first count)
  | .restart => True

/-- What the replicas have in common once both have applied the slot. -/
structure AgreeAt (log : ℕ → ByteString) (database : site.engine.Database) (slot : ℕ)
    (node node' : Node site) : Prop where
  /-- Both went through the state that the slots up to this one settle to. -/
  passed : ∃ ledger : Ledger site, ledger.tip = slot ∧
    Relation.ReflTransGen (Ledger.Step Ledger.exactOutcome log) (fresh database).ledger ledger ∧
    Relation.ReflTransGen (Ledger.Step Ledger.exactOutcome log) ledger node.ledger ∧
    Relation.ReflTransGen (Ledger.Step Ledger.exactOutcome log) ledger node'.ledger
  receipts : ∀ key row, row.1.slot ≤ slot → node.tip < row.1.slot + site.window →
    node'.tip < row.1.slot + site.window →
      (node.materializer.receipt key = some row ↔ node'.materializer.receipt key = some row)
  store : node.tip = slot → node'.tip = slot →
    node'.materializer.store = node.materializer.store

end Node

/-! ## Sheltered runs -/

/-- A failure of an early statement is the failure of the command. -/
theorem runStatements_take {lib : Library} {engine : SQLite lib.Float} {requireOne : Bool}
    {statements : List (SQLStatement lib.Float)} {count : ℕ} {database : engine.Database}
    {prepared prepared' : Prepared} {results : List SQLStatementResult} {budget : ResultBudget}
    {failure : ExecuteFailure}
    (h : runStatements engine requireOne (statements.take count) database prepared results budget =
      (prepared', .error failure)) :
    runStatements engine requireOne statements database prepared results budget =
      (prepared', .error failure) := by
  induction statements generalizing count database prepared results budget with
  | nil =>
    rw [List.take_nil] at h
    exact h
  | cons statement rest ih =>
    cases count with
    | zero => cases h
    | succ =>
      rw [List.take_succ_cons] at h
      unfold runStatements at h ⊢
      cases hpart : executeStatement (engine.reporting (prepared.lookup statement.sql))
          requireOne database results budget statement with
      | error =>
        simp only [hpart] at h ⊢
        exact h
      | ok =>
        simp only [hpart] at h ⊢
        exact ih h

theorem Fault.outcome_closed {fault : Fault} (hclosed : fault.openAfter = false)
    (prepared : Prepared) :
    @Fault.outcome site fault prepared = .error (.other "transaction is lost") :=
  if_neg (hclosed ▸ Bool.false_ne_true)

/-- A local error that closes the transaction is not among the outcomes of commands. -/
theorem Site.struck_closed {fault : Fault} {prepared prepared' : Prepared}
    {database : site.engine.Database} {outcome : site.Outcome} (hclosed : fault.openAfter = false)
    (h : site.struck fault prepared database command = .ok (prepared', outcome)) :
    runSQLCommand site.engine prepared database command = (prepared', outcome) := by
  unfold struck at h
  simp only [Fault.outcome_closed hclosed] at h
  split at h
  · split at h
    · cases h
    · exact Except.ok.inj h
  split at h
  · rename_i begun statement hbegin _
    split at h
    · rename_i after failure hrun
      cases h
      rw [runSQLCommand, hbegin]
      simp only [runStatements_take hrun]
      rfl
    · cases h
  · exact Except.ok.inj h

theorem Site.faulty_permitted {faults : ℕ → ℕ → Option Fault} {slot index : ℕ}
    {working : Working site} (h : Node.Sheltered faults slot index working command) :
    Working.Permitted (site.faulty faults) Ledger.exactOutcome slot index working command := by
  obtain ⟨hnow, hclosed⟩ := h
  intro prepared outcome hrun
  have hnormal : runSQLCommand site.engine working.prepared working.store.database command =
      (prepared, outcome) := by
    unfold faulty at hrun
    split at hrun
    · exact Except.ok.inj hrun
    · rename_i fault hfault
      exact struck_closed (hclosed fault hfault) hrun
  have hjob := runSQLCommand_eq hnow
  rw [hnormal] at hjob
  exact hjob

namespace Ledger

variable {allowed : Allowed site} {log : ℕ → ByteString} {ledger ledger' : Ledger site}

variable {row : ReceiptRow × Bool} {slot : ℕ} {key : RequestKey}

/-- A receipt of an earlier slot was there before. -/
theorem Visits.receipt_before {other : RequestKey}
    (hsee : ledger.Visits slot key ledger') (hrow : ledger'.receipt other = some row)
    (hslot : row.1.slot ≠ slot) : ledger.receipt other = some row := by
  cases hsee with
  | found _ hsame => rwa [hsame] at hrow
  | takes new _ hnew hslip _ =>
    rw [hslip other] at hrow
    split at hrow
    · cases hrow
      exact absurd hnew hslot
    · exact hrow

theorem settlesPayload_before {payload : Payload site.lib.Float}
    (hslot : row.1.slot ≠ slot) (hpaid : SettlesPayload allowed slot ledger ledger' payload)
    (hrow : ledger'.receipt key = some row) : ledger.receipt key = some row := by
  cases payload with
  | sql commands =>
    change SettlesAllSQL allowed slot commands ledger ledger' at hpaid
    induction commands generalizing ledger with
    | nil => rwa [(hpaid : ledger' = ledger)] at hrow
    | cons command rest ih =>
      obtain ⟨middle, hfirst, hrest⟩ := hpaid
      have hmid := ih hrest
      obtain ⟨-, hleaves⟩ | ⟨-, hsee⟩ := settlesSQL_cases hfirst
      · rw [← hleaves.receipt key]
        exact hmid
      · exact hsee.receipt_before hmid hslot
  | kv commands =>
    change commands.foldlM (fun ledger command => ledger.settleKV slot command) ledger =
      .ok ledger' at hpaid
    induction commands generalizing ledger with
    | nil =>
      cases hpaid
      exact hrow
    | cons command rest ih =>
      rw [List.foldlM_cons, bind_eq_ok] at hpaid
      obtain ⟨middle, hfirst, hrest⟩ := hpaid
      exact (settleKV_visits hfirst).receipt_before (ih hrest) hslot
  | notify => exact (settleNotify_visits hpaid).receipt_before hrow hslot
  | graph | control => rwa [(hpaid : ledger' = ledger)] at hrow

theorem steps_before
    (hsteps : Relation.ReflTransGen (Step allowed log) ledger ledger')
    (hslot : row.1.slot ≤ ledger.tip) (hrow : ledger'.receipt key = some row) :
    ledger.receipt key = some row := by
  induction hsteps with
  | refl => exact hrow
  | tail hmore hlast ih =>
    rename_i middle last
    have hle := steps_tip_le hmore
    obtain ⟨payload, settled, -, hpaid, rfl⟩ := hlast
    have hold : (middle.expire (middle.tip + 1) payload).receipt key = some row :=
      settlesPayload_before (by omega) hpaid hrow
    apply ih
    unfold expire at hold
    split at hold
    · exact hold
    · rw [receipt_prune] at hold
      exact (Option.filter_eq_some_iff.mp hold).1

/-- The way to a ledger passes all slots before. -/
theorem exists_between (hsteps : Relation.ReflTransGen (Step allowed log) ledger ledger')
    (hle : ledger.tip ≤ slot) (hlt : slot ≤ ledger'.tip) :
    ∃ middle : Ledger site, middle.tip = slot ∧
      Relation.ReflTransGen (Step allowed log) ledger middle ∧
      Relation.ReflTransGen (Step allowed log) middle ledger' := by
  induction hsteps with
  | refl => exact ⟨ledger, by omega, .refl, .refl⟩
  | tail hmore hlast ih =>
    rename_i before last
    rw [hlast.tip] at hlt
    obtain heq | hlt := Nat.eq_or_lt_of_le hlt
    · exact ⟨last, hlast.tip.trans heq.symm, hmore.tail hlast, .refl⟩
    · obtain ⟨middle, htip, hfirst, hrest⟩ := ih (Nat.le_of_lt_succ hlt)
      exact ⟨middle, htip, hfirst, hrest.tail hlast⟩

end Ledger

namespace Node

variable {log : ℕ → ByteString} {database : site.engine.Database}
  {attempts attempts' : List (Attempt site)} {node node' : Node site}

theorem guarded_sheltered (h : Guarded (fun node attempt => node.step log attempt.event)
      (ShelteredIn log) node attempts) :
    Guarded (Node.step log) (Event.Permitted Ledger.exactOutcome log) node
      (attempts.map Attempt.event) := by
  induction attempts generalizing node with
  | nil => exact trivial
  | cons attempt rest ih =>
    refine ⟨?_, fun next hnext => ih (h.2 next hnext)⟩
    cases attempt with
    | applyBatch =>
      exact Working.Meets.imp (fun _ _ _ _ => Site.faulty_permitted) h.1
    | restart => exact trivial

/-- Two replicas that apply the log, each with its own local errors, retries and restarts, agree
on what they have both applied, if no error leaves a transaction open. -/
theorem agreeAt_of_sheltered (hrun : runAttempts log database attempts = some node)
    (hrun' : runAttempts log database attempts' = some node')
    (hsheltered : Guarded (fun node attempt => node.step log attempt.event) (ShelteredIn log)
      (fresh database) attempts)
    (hsheltered' : Guarded (fun node attempt => node.step log attempt.event) (ShelteredIn log)
      (fresh database) attempts')
    {slot : ℕ} (hslot : slot ≤ node.tip) (hslot' : slot ≤ node'.tip) :
    AgreeAt log database slot node node' := by
  obtain ⟨hreached, -⟩ := reached_fresh.run (guarded_sheltered hsheltered) hrun
  obtain ⟨hreached', -⟩ := reached_fresh.run (guarded_sheltered hsheltered') hrun'
  obtain ⟨ledger, htip, hfirst, hrest⟩ :=
    Ledger.exists_between hreached.settled (Nat.zero_le slot) hslot
  have hrest' : Relation.ReflTransGen (Ledger.Step Ledger.exactOutcome log) ledger node'.ledger :=
    Ledger.steps_unique Ledger.exactOutcome_deterministic hfirst hreached'.settled
      (htip.trans_le hslot')
  refine ⟨⟨ledger, htip, hfirst, hrest, hrest'⟩, ?_, ?_⟩
  · intro key row hle hlive hlive'
    have hpassed : ledger.onceLog.Passed site.window (site.requests log) ledger.tip := by
      apply Ledger.steps_passed hfirst
      rw [onceLog_fresh]
      exact OnceLog.passed_empty site.window (site.requests log)
    have hpos : ledger.receipt key = some row → 0 < row.1.slot := by
      intro hrow
      have hrecorded : ledger.onceLog.recorded key = some row.1.slot := by
        simp only [Ledger.onceLog, hrow, Option.map_some]
      exact hpassed.once.positive _ (hpassed.once.traced _ _ hrecorded)
    have hbefore : row.1.slot ≤ ledger.tip := hle.trans htip.ge
    constructor
    · intro hrow
      have hold := Ledger.steps_before hrest hbefore hrow
      exact Ledger.steps_keep row hrest' (hpos hold) hlive' hold
    · intro hrow
      have hold := Ledger.steps_before hrest' hbefore hrow
      exact Ledger.steps_keep row hrest (hpos hold) hlive hold
  · intro heq heq'
    apply hreached.store_eq hreached'
    exact (Ledger.eq_of_steps Ledger.exactOutcome_deterministic .refl hrest'
      (htip.trans heq'.symm)).symm.trans
      (Ledger.eq_of_steps Ledger.exactOutcome_deterministic .refl hrest (htip.trans heq.symm))

end Node

/-! ## A disk that is full for a moment -/

/-- One slot is applied while the first statement of every command fails. -/
def deleteAttempt (fault : Option Fault) : Attempt (plainSite quiet) :=
  .applyBatch (fun _ _ => fault) 1 1 Nat.one_pos Batch.one_le

/-- Whether the receipt of the request says that it was committed. -/
def deleteCommitted (node : Node (plainSite quiet)) : Option Bool :=
  (node.materializer.receipt (.sql, bytesOf "r1")).map (·.1.committed)

/-- The replica whose disk is full rejects the command that the other one commits. -/
theorem not_agreeAt_openAfter :
    ∃ node node' : Node (plainSite quiet),
      Node.runAttempts deleteLog () [deleteAttempt none] = some node ∧
      Node.runAttempts deleteLog () [deleteAttempt (some ⟨.statement 0 .step, true⟩)] = some node' ∧
      node.tip = 1 ∧ node'.tip = 1 ∧ ¬ Node.AgreeAt deleteLog () 1 node node' := by
  obtain ⟨node, hnode, node', hnode', htip, htip', hcommitted, hrejected⟩ :
      ∃ node, Node.runAttempts deleteLog () [deleteAttempt none] = some node ∧
        ∃ node', Node.runAttempts deleteLog () [deleteAttempt (some ⟨.statement 0 .step, true⟩)] =
          some node' ∧ node.tip = 1 ∧ node'.tip = 1 ∧ deleteCommitted node = some true ∧
            deleteCommitted node' = some false := by
    decide +kernel
  refine ⟨node, node', hnode, hnode', htip, htip', fun hagree => ?_⟩
  have hstore := hagree.store htip htip'
  rw [deleteCommitted, State.receipt, hstore] at hrejected
  rw [deleteCommitted, State.receipt, hrejected] at hcommitted
  cases hcommitted

theorem sheltered_delete {fault : Option Fault}
    (hclosed : ∀ fault' ∈ fault, fault'.openAfter = false)
    (node : Node (plainSite quiet)) : node.ShelteredIn deleteLog (deleteAttempt fault) := by
  refine Working.meetsDecisions_of_values ?_ _
  intro decision hmem working payload expired hgot _
  obtain ⟨slot, -, rfl⟩ := List.mem_map.mp hmem
  cases hgot.symm.trans (decode_deleteLog slot)
  exact ⟨fun _ => ⟨fun database _ => ⟨nofun, fun _ _ _ _ => trivial⟩, hclosed⟩, fun _ _ => trivial⟩

/-- If the transaction is lost, the batch is applied again after a restart. -/
theorem agreeAt_closed :
    ∃ node node' : Node (plainSite quiet),
      Node.runAttempts deleteLog () [deleteAttempt none] = some node ∧
      Node.runAttempts deleteLog ()
        [deleteAttempt (some ⟨.statement 0 .step, false⟩), .restart, deleteAttempt none] =
          some node' ∧
      Node.AgreeAt deleteLog () 1 node node' := by
  obtain ⟨node, hnode, node', hnode', htip, htip'⟩ :
      ∃ node, Node.runAttempts deleteLog () [deleteAttempt none] = some node ∧
        ∃ node', Node.runAttempts deleteLog ()
          [deleteAttempt (some ⟨.statement 0 .step, false⟩), .restart, deleteAttempt none] =
            some node' ∧
            1 ≤ node.tip ∧ 1 ≤ node'.tip := by
    decide +kernel
  have hnone : ∀ node : Node (plainSite quiet),
      node.ShelteredIn deleteLog (deleteAttempt none) := sheltered_delete nofun
  have hlost : ∀ node : Node (plainSite quiet),
      node.ShelteredIn deleteLog (deleteAttempt (some ⟨.statement 0 .step, false⟩)) := by
    apply sheltered_delete
    intro fault hfault
    cases hfault
    rfl
  refine ⟨node, node', hnode, hnode', Node.agreeAt_of_sheltered hnode hnode' ?_ ?_ htip htip'⟩
  · exact ⟨hnone _, fun _ _ => trivial⟩
  · exact ⟨hlost _, fun _ _ => ⟨trivial, fun next _ => ⟨hnone next, fun _ _ => trivial⟩⟩⟩

end Rhiza.Materializer
