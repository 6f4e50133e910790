import Rhiza.Materializer.Sound

/-! # Runs of a materializer

A materializer applies batches of a decided log, in any order in which it gets them, and is
restarted now and then. A batch that fails changes nothing; a restart that fails ends the run.
-/

namespace Rhiza.Materializer

open Foundations Commands

/-- A call of `ApplyBatch` with slots of the log, and what befalls the commands it executes. -/
structure Batch (site : Site) where
  execution : Execution site
  first : ℕ
  count : ℕ
  first_pos : 0 < first
  count_le : count ≤ 256

theorem Batch.one_le : 1 ≤ 256 := by decide

def Batch.decisions {site : Site} (batch : Batch site) (log : ℕ → ByteString) :
    List (ℕ × ByteString) :=
  slice log batch.first batch.count

inductive Event (site : Site) where
  | applyBatch (batch : Batch site)
  | restart

/-- A materializer, and the commands that took effect in it. -/
structure Node (site : Site) where
  materializer : State site
  effects : List Effect

variable {site : Site}

namespace Node

/-- A new database. -/
def fresh (database : site.engine.Database) : Node site where
  materializer :=
    { store :=
        { database, kv := ⟨∅, ∅⟩, notify := ∅, sql := ∅, usage := ⟨0, 0⟩, tip := 0, tipHash := 0
          stateTip := 0 }
      bloom := .empty
      recent := ∅ }
  effects := []

def tip (node : Node site) : ℕ := node.materializer.store.tip

def ledger (node : Node site) : Ledger site := node.materializer.store.ledger node.effects

variable (log : ℕ → ByteString)

def applyBatch (batch : Batch site) (node : Node site) : Node site :=
  match node.materializer.applyBatch batch.execution (batch.decisions log) with
  | .ok (materializer, effects) => { materializer, effects := node.effects ++ effects }
  | .error _ => node

def step (node : Node site) : Event site → Option (Node site)
  | .applyBatch batch => some (node.applyBatch log batch)
  | .restart =>
    (openMaterializer node.materializer.store).toOption.map fun materializer =>
      { node with materializer }

end Node

/-! ## Restarts -/

namespace State

variable {m next : State site}

theorem Sound.open (hsound : m.Sound) (h : openMaterializer m.store = .ok next) :
    next.store = m.store ∧ next.Sound := by
  simp only [openMaterializer, bind_eq_ok] at h
  obtain ⟨_, -, hnext⟩ := h
  cases hnext
  refine ⟨rfl, hsound.usage, hsound.tallied, ?_, (by simp), (by simp)⟩
  have hwin := site.window_bounds.1
  have hslot : ∀ requestID row, m.store.sql.lookup requestID = some row →
      row.slot ≤ m.store.tip := by
    intro requestID row hrow
    exact hsound.tallied.late row.slot (mem_slotsOf.mpr ⟨requestID, row, hrow, rfl⟩)
  intro requestID row hrow hlive
  refine SQLReceiptBloom.marked_addAll (List.mem_map.mpr ⟨⟨requestID, row⟩, ?_, rfl⟩) ?_
  · refine List.mem_filter.mpr ⟨AList.mem_lookup_iff.mp hrow, decide_eq_true ?_⟩
    dsimp only at hlive ⊢
    split <;> omega
  · intro entry hmem
    obtain ⟨⟨otherID, other⟩, hother, rfl⟩ := List.mem_map.mp hmem
    obtain ⟨hentry, hfloor⟩ := List.mem_filter.mp hother
    have hle := hslot otherID other (AList.mem_lookup_iff.mpr hentry)
    have hle' := hslot requestID row hrow
    have hfloor' := of_decide_eq_true hfloor
    dsimp only at hlive hfloor' ⊢
    refine ⟨epoch_near (by omega) ?_, epoch_near (by omega) (by omega)⟩
    split at hfloor' <;> omega

theorem Sound.valid (hsound : m.Sound) : m.store.usage.valid site.window = true := by
  rw [hsound.usage]
  exact decide_eq_true ⟨hsound.tallied.bytes, hsound.tallied.total⟩

/-- The database is opened again just if no request id of a stored receipt begins with a NUL. -/
theorem Sound.load_iff {effects : List Effect} (hsound : m.Sound)
    (hprop : (m.store.ledger effects).Proper) :
    loadSQLReceiptRetention m.store = .ok () ↔
      ∀ requestID row, m.store.sql.lookup requestID = some row → requestID.headD 0 ≠ 0 := by
  have hwith : ∀ requestID row, m.store.sql.lookup requestID = some row →
      (row.withinPolicy requestID = true ↔ requestID.headD 0 ≠ 0) := by
    intro requestID row hrow
    obtain ⟨hform, -, hlen⟩ := hprop requestID row hrow
    exact hform.withinPolicy hlen
  simp only [loadSQLReceiptRetention, bind_eq_ok]
  constructor
  · rintro ⟨_, -, _, hall, -⟩ requestID row hrow
    have hentry := List.all_eq_true.mp (require_eq_ok.mp hall) ⟨requestID, row⟩
      (AList.mem_lookup_iff.mp hrow)
    exact (hwith requestID row hrow).mp hentry
  · intro hhead
    refine ⟨(), require_eq_ok.mpr hsound.valid, (), require_eq_ok.mpr ?_, require_eq_ok.mpr ?_⟩
    · apply List.all_eq_true.mpr
      rintro ⟨requestID, row⟩ hentry
      have hrow := AList.mem_lookup_iff.mpr hentry
      exact (hwith requestID row hrow).mpr (hhead requestID row hrow)
    · rw [hsound.usage]
      exact ⟨rfl, rfl⟩

variable {log : ℕ → ByteString} {first count : ℕ} {allowed : Ledger.Allowed site}
  {error : ApplyError}

/-- A batch without faults fails because the log or an earlier receipt does not let it go on. -/
theorem Sound.applyBatch_error (hsound : m.Sound) (hpos : 0 < first) (hcount : count ≤ 256)
    (hhash : 0 < m.store.tip →
      m.store.tipHash = site.codec.sha256 (coreBytes (log m.store.tip)))
    (hmay : m.begin.Meets site.execution m.bloom
      (Working.Permitted site.execution allowed)
      (slice log first count))
    (h : m.applyBatch site.execution (slice log first count) = .error error) :
    error.ordinary = true ∧ (Ledger.Deterministic allowed → first ≤ m.store.tip + 1 →
      (∀ slot, first ≤ slot → slot < first + count → site.policy (log slot) = .ok ()) →
      m.store.Unreadable ∨ ∀ earlier final, Relation.ReflTransGen (Ledger.Step allowed log)
        (m.store.ledger earlier) final → final.tip + 1 < first + count) := by
  unfold State.applyBatch at h
  cases hrule : requireAll (fun decision => site.policy decision.2) (slice log first count) with
  | error =>
    rw [hrule] at h
    cases h
    refine ⟨rfl, fun _ _ hsanctioned => ?_⟩
    have hok : requireAll (fun decision => site.policy decision.2) (slice log first count) =
        .ok () := by
      apply requireAll_eq_ok.mpr
      intro decision hmem
      obtain ⟨slot, hslot, rfl⟩ := List.mem_map.mp hmem
      rw [List.mem_range'_1] at hslot
      exact hsanctioned slot hslot.1 hslot.2
    rw [hrule] at hok
    cases hok
  | ok =>
  rw [hrule, apply_ok, ok_bind] at h
  split at h
  · cases h
  have hgap := hsound.begin
  cases hwork : m.begin.applyDecisions site.execution m.bloom (slice log first count) with
  | error =>
    rw [hwork] at h
    cases h
    have hlen : m.begin.store.tip + count ≤ m.store.tip + 256 :=
      Nat.add_le_add_left hcount m.store.tip
    obtain ⟨hplain, hstuck⟩ := hgap.applyDecisions_error hpos hhash hlen hmay hwork
    refine ⟨hplain, fun hallow hfirst _ => (hstuck hallow hfirst).imp_right ?_⟩
    intro hends earlier final hsteps
    rw [← begin_ledger] at hsteps
    exact hends earlier final hsteps
  | ok =>
    exfalso
    have hlen : m.begin.store.tip + (slice log first count).length ≤ m.store.tip + 256 := by
      rw [length_slice]
      exact Nat.add_le_add_left hcount m.store.tip
    obtain ⟨hgap', -⟩ := hgap.applyDecisions (fun _ => eq_of_mem_slice) hlen hmay hwork
    obtain ⟨flushed, hflush, -, hvalid, -⟩ := hgap'.valid.flush
    have husage : flushed.store.usage.valid site.window = true := by
      rw [hvalid.usage]
      exact decide_eq_true ⟨hvalid.tallied.bytes, hvalid.tallied.total⟩
    simp only [hwork, ok_bind, hflush, ensure, if_pos husage] at h
    cases h

end State

/-! ## Any outcome -/

/-- Nothing is said about outcomes. -/
def Ledger.anyOutcome : Ledger.Allowed site := fun _ _ _ => True

theorem Working.permitted_any {execution : Execution site} {bloom : SQLReceiptBloom}
    (decisions : List (ℕ × ByteString)) (working : Working site) :
    working.Meets execution bloom (Permitted execution Ledger.anyOutcome) decisions :=
  meetsDecisions_of_forall (fun _ _ _ _ _ _ _ => trivial) decisions working

/-! ## The engine's outcome -/

/-- The outcome that the command has with every statement compiled anew. -/
def Ledger.exactOutcome : Ledger.Allowed site := fun database command outcome =>
  outcome = executeSQLCommand site.engine.toEngine database command

theorem Ledger.exactOutcome_deterministic :
    Ledger.Deterministic (Ledger.exactOutcome : Ledger.Allowed site) :=
  fun _ _ _ _ hfirst htwo => hfirst.trans htwo.symm

/-- No statement of the command that returns rows was compiled before a change of its columns. -/
def Working.Current : Working.Condition site := fun _ _ working command =>
  CommandCurrent site.engine working.prepared working.store.database command

theorem Working.Current.permitted {slot index : ℕ} {working : Working site}
    {command : SQLCommand site.lib.Float} (hnow : Current slot index working command) :
    Permitted site.execution Ledger.exactOutcome slot index working command := by
  intro prepared outcome hrun
  have hjob := runSQLCommand_eq hnow
  rw [Except.ok.inj hrun] at hjob
  exact hjob

/-- A batch applies a SQL command as `applyCommand` applies it to the ledger of the batch, where
the waiting receipts are in the table. A receipt of the batch itself is not read. -/
theorem Working.Ongoing.applyCommand {base : Store site} {bloom : SQLReceiptBloom}
    {slot index : ℕ} {working next : Working site} {command : SQLCommand site.lib.Float}
    (hongoing : working.Ongoing base bloom slot) (hfresh : working.Fresh slot)
    (hper : (slotsOf working.merged).count slot < maxSQLCommandsPerDecidedValue)
    (hcurrent : Current slot index working command)
    (hread : ∀ row, working.merged.lookup command.requestID = some row →
      ∃ record, scanReceipt site.window row = .ok record)
    (h : working.applySQL site.execution bloom slot index command = .ok next) :
    ∃ state, Materializer.applyCommand site.engine.toEngine site.codec site.window slot command
        (working.ledger []).materialized = .ok state ∧
      state.database = next.store.database ∧ state.receipts = next.merged := by
  obtain ⟨-, -, hsettles⟩ := hongoing.applySQL hfresh hper (fun _ => hcurrent.permitted) h
  obtain ⟨hcheck, fingerprint, hprint, hrest⟩ := hsettles []
  simp only [Materializer.applyCommand, hcheck, hprint, ok_bind, orElseError]
  rw [if_neg fun hmem => absurd hmem.2 List.not_mem_nil]
  split at hrest
  next hseen =>
    obtain ⟨row, hrow⟩ := Option.isSome_iff_exists.mp hseen.2
    obtain ⟨record, hscan⟩ := hread row hrow
    have hfound : (working.ledger []).materialized.receipts.lookup command.requestID = some row :=
      hrow
    simp only [if_neg hseen.1, hfound, hscan, ok_bind]
    exact ⟨_, rfl, congrArg Ledger.database hrest.symm, congrArg Ledger.sql hrest.symm⟩
  next hseen =>
    obtain ⟨_, rfl, hconclude⟩ := hrest
    obtain ⟨state, hstate, hledger⟩ := bind_eq_ok.mp hconclude
    have hnone : (if command.requestID = [] then none
        else (working.ledger []).materialized.receipts.lookup command.requestID) = none :=
      ite_eq_left_iff.mpr fun hid =>
        Option.not_isSome_iff_eq_none.mp fun hsome => hseen ⟨hid, hsome⟩
    rw [hnone]
    have hnext := Except.ok.inj hledger
    exact ⟨state, apply_eq_ok.mp hstate, congrArg Ledger.database hnext, congrArg Ledger.sql hnext⟩

/-! ## Reached states -/

/-- What a run leads to. -/
structure Node.Reached (allowed : Ledger.Allowed site) (log : ℕ → ByteString)
    (database : site.engine.Database) (node : Node site) : Prop where
  sound : node.materializer.Sound
  settled : Relation.ReflTransGen (Ledger.Step allowed log) (fresh database).ledger node.ledger
  sanctioned : ∀ slot, 0 < slot → slot ≤ node.tip → site.policy (log slot) = .ok ()

/-- The commands that the event executes meet the condition. -/
def Event.Meets (condition : Batch site → Working.Condition site) (log : ℕ → ByteString)
    (node : Node site) : Event site → Prop
  | .applyBatch batch => node.materializer.begin.Meets batch.execution
      node.materializer.bloom (condition batch) (batch.decisions log)
  | .restart => True

/-- Their outcomes are allowed ones. -/
abbrev Event.Permitted (allowed : Ledger.Allowed site) :
    (ℕ → ByteString) → Node site → Event site → Prop :=
  Event.Meets fun batch => Working.Permitted batch.execution allowed

namespace Node

variable {allowed : Ledger.Allowed site} {log : ℕ → ByteString} {database : site.engine.Database}
  {node next : Node site} {event : Event site} {events : List (Event site)}

theorem reached_fresh : (fresh database).Reached allowed log database where
  sound := ⟨rfl, ⟨nofun, nofun, fun _ => Nat.zero_le _, Nat.zero_le _, Nat.zero_le _⟩, nofun,
    nofun, nofun⟩
  settled := .refl
  sanctioned _ hpos hle := absurd hpos (Nat.not_lt.mpr hle)

/-- One step from a reached state settles some slots and forgets no effect. -/
theorem Reached.step (hreach : node.Reached allowed log database)
    (hmay : Event.Permitted allowed log node event) (h : node.step log event = some next) :
    next.Reached allowed log database ∧
      Relation.ReflTransGen (Ledger.Step allowed log) node.ledger next.ledger := by
  cases event with
  | applyBatch batch =>
    cases h
    cases happly : node.materializer.applyBatch batch.execution (batch.decisions log) with
    | error =>
      have hsame : node.applyBatch log batch = node := by
        rw [Node.applyBatch, happly]
      rw [hsame]
      exact ⟨hreach, .refl⟩
    | ok applied =>
      obtain ⟨m, effects⟩ := applied
      have hnext : node.applyBatch log batch = ⟨m, node.effects ++ effects⟩ := by
        rw [Node.applyBatch, happly]
      rw [hnext]
      obtain ⟨hsound, hsteps⟩ := hreach.sound.applyBatch batch.count_le hmay happly
      refine ⟨⟨hsound, hreach.settled.trans (hsteps node.effects), ?_⟩, hsteps node.effects⟩
      intro slot hpos hle
      by_cases hold : slot ≤ node.tip
      · exact hreach.sanctioned slot hpos hold
      change slot ≤ m.store.tip at hle
      change ¬ slot ≤ node.materializer.store.tip at hold
      obtain ⟨rfl, -⟩ | ⟨hfirst, htip⟩ := State.applyBatch_tip happly
      · exact absurd hle hold
      obtain ⟨rfl, -⟩ | ⟨-, hrule, -⟩ := State.applyBatch_eq_ok happly
      · exact absurd hle hold
      · exact hrule slot (by omega) (by omega)
  | restart =>
    simp only [Node.step, Option.map_eq_some_iff, toOption_eq_some] at h
    obtain ⟨m, hopen, rfl⟩ := h
    obtain ⟨hstore, hsound⟩ := hreach.sound.open hopen
    have hbook : ({ node with materializer := m } : Node site).ledger = node.ledger := by
      rw [Node.ledger, hstore, Node.ledger]
    refine ⟨⟨hsound, ?_, ?_⟩, ?_⟩
    · rw [hbook]
      exact hreach.settled
    · rw [Node.tip, hstore]
      exact hreach.sanctioned
    · rw [hbook]

theorem Reached.run (hreach : node.Reached allowed log database)
    (hguard : Guarded (Node.step log) (Event.Permitted allowed log) node events)
    (hrun : runFrom (Node.step log) node events = some next) :
    next.Reached allowed log database ∧
      Relation.ReflTransGen (Ledger.Step allowed log) node.ledger next.ledger := by
  let holds : Node site → Prop := fun state => state.Reached allowed log database ∧
    Relation.ReflTransGen (Ledger.Step allowed log) node.ledger state.ledger
  have hholds : holds next := by
    refine hguard.invariant ?_ hrun ⟨hreach, .refl⟩
    intro state event next hstate hmay hstep
    obtain ⟨hnext, hsteps⟩ := hstate.1.step hmay hstep
    exact ⟨hnext, hstate.2.trans hsteps⟩
  exact hholds

/-- Every run is one in which some outcomes occur. -/
theorem guarded_any (node : Node site) (events : List (Event site)) :
    Guarded (Node.step log) (Event.Permitted Ledger.anyOutcome log) node events := by
  induction events generalizing node with
  | nil => exact trivial
  | cons event rest ih =>
    refine ⟨?_, fun next _ => ih next⟩
    cases event with
    | applyBatch => exact Working.permitted_any ..
    | restart => exact trivial

theorem reached_any (hrun : runFrom (Node.step log) (fresh database) events = some node) :
    node.Reached Ledger.anyOutcome log database :=
  (reached_fresh.run (guarded_any _ _) hrun).1

/-! ## What the ledger says of a reached state -/

theorem Reached.proper (hreach : node.Reached allowed log database) : node.ledger.Proper :=
  Ledger.steps_proper hreach.settled nofun

theorem onceLog_fresh (database : site.engine.Database) :
    (fresh database).ledger.onceLog = .empty := by
  apply OnceLog.ext
  · rintro ⟨kind, requestID⟩
    cases kind <;> rfl
  · rfl

section Reached

variable (hreach : node.Reached allowed log database)
include hreach

theorem Reached.passed :
    node.ledger.onceLog.Passed site.window (site.requests log) node.tip := by
  apply Ledger.steps_passed hreach.settled
  rw [onceLog_fresh]
  exact OnceLog.passed_empty site.window (site.requests log)

theorem Reached.tipHash (hpos : 0 < node.tip) :
    node.materializer.store.tipHash = site.codec.sha256 (coreBytes (log node.tip)) := by
  obtain heq | ⟨before, -, hlast⟩ := hreach.settled.cases_tail
  · have htip : node.tip = 0 := congrArg Ledger.tip heq
    omega
  · obtain ⟨payload, settled, -, -, hbook⟩ := hlast
    have htip : node.tip = before.tip + 1 := congrArg Ledger.tip hbook
    rw [htip]
    exact congrArg Ledger.tipHash hbook

/-- A batch without faults gets to the last of its slots, if the log can be settled that far and
all stored receipts can be read. -/
theorem Reached.applyBatch_complete (hallow : Ledger.Deterministic allowed) {batch : Batch site}
    (hexecution : batch.execution = site.execution)
    (hmay : Event.Permitted allowed log node (.applyBatch batch))
    (hread : ¬ node.materializer.store.Unreadable) (hfirst : batch.first ≤ node.tip + 1)
    {final : Ledger site}
    (hsteps : Relation.ReflTransGen (Ledger.Step allowed log) node.ledger final)
    (hfinal : batch.first + batch.count ≤ final.tip + 1)
    (hrule : ∀ slot, 0 < slot → slot ≤ final.tip → site.policy (log slot) = .ok ()) :
    (node.applyBatch log batch).tip + 1 = max (node.tip + 1) (batch.first + batch.count) := by
  cases happly : node.materializer.applyBatch batch.execution (batch.decisions log) with
  | error =>
    have hmay' : node.materializer.begin.Meets batch.execution
      node.materializer.bloom (Working.Permitted batch.execution allowed)
      (slice log batch.first batch.count) := hmay
    rw [hexecution] at happly hmay'
    obtain ⟨-, hstuck⟩ := hreach.sound.applyBatch_error batch.first_pos batch.count_le
      hreach.tipHash hmay' happly
    have hsanctioned : ∀ slot, batch.first ≤ slot → slot < batch.first + batch.count →
        site.policy (log slot) = .ok () := by
      intro slot hle hlt
      have := batch.first_pos
      exact hrule slot (by omega) (by omega)
    obtain hunreadable | hends := hstuck hallow hfirst hsanctioned
    · exact absurd hunreadable hread
    · have := hends node.effects final hsteps
      omega
  | ok applied =>
    obtain ⟨m, effects⟩ := applied
    have hnext : node.applyBatch log batch = ⟨m, node.effects ++ effects⟩ := by
      rw [Node.applyBatch, happly]
    rw [hnext]
    obtain ⟨rfl, hcount⟩ | ⟨-, htip⟩ := State.applyBatch_tip happly
    · change node.tip + 1 = _
      omega
    · exact htip

end Reached

end Node

end Rhiza.Materializer
