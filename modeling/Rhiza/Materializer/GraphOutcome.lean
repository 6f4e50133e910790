import Rhiza.Materializer.GraphReceipts
import Rhiza.Materializer.GraphRuns

/-! # Outcomes of graph commands

A graph command that was decided is applied or rejected on every replica, or it stops the log.
The engine may refuse a query when it parses, plans or executes it, and the stream calls on
their arguments. Only a query that does not parse is turned into a rejection.
-/

namespace Rhiza.Materializer

open Foundations Commands

section Command

variable {lib : Library} (engine : LatticeEngine lib.Float)

/-- The engine takes the events one after the other. -/
def Publishes : engine.Graph → List (GraphStreamEvent lib.Float) → Prop
  | _, [] => True
  | graph, event :: events => ∃ payload graph', graphArg lib event.payload = .ok payload ∧
      engine.publishStream graph event.stream event.kind payload = .ok graph' ∧
      Publishes graph' events

/-- The engine carries the command out, or fails to parse its query. -/
def Recordable (graph : engine.Graph) (command : GraphCommand lib.Float) : Prop :=
  match command.streamOffset, command.streamTrim with
  | some offset, _ => ∃ graph', engine.setStreamOffset graph offset = .ok graph' ∧
      Publishes engine graph' command.events
  | none, some trim => ∃ graph', engine.trimStream graph trim = .ok graph' ∧
      Publishes engine graph' command.events
  | none, none => ∃ args, graphArgs lib command.args = .ok args ∧
      ((∃ graph', engine.query graph command.cypher args = .ok graph' ∧
          Publishes engine graph' command.events) ∨
        ∃ failure, engine.query graph command.cypher args = .error failure ∧
          failure.isDeterministicQuery = true)

variable {engine} {graph : engine.Graph} {events : List (GraphStreamEvent lib.Float)}

theorem publishEvents_isOk :
    (∃ graph', publishEvents engine graph events = .ok graph') ↔ Publishes engine graph events := by
  induction events generalizing graph with
  | nil => exact iff_of_true ⟨graph, rfl⟩ trivial
  | cons event events ih =>
    unfold publishEvents Publishes
    cases hpay : graphArg lib event.payload with
    | error => simp
    | ok payload =>
      cases hpublish : engine.publishStream graph event.stream event.kind payload with
      | error => simp [hpublish]
      | ok => simp [hpublish, ih]

theorem publishEvents_ne_rejected :
    publishEvents engine graph events ≠ .error .rejected := by
  induction events generalizing graph with
  | nil => exact nofun
  | cons event events ih =>
    unfold publishEvents
    split
    · exact nofun
    · split
      · exact nofun
      · exact ih

theorem engineError_eq_ok {α : Type} {outcome : Except LatticeFailure α} {value : α} :
    engineError outcome = .ok value ↔ outcome = .ok value := by
  cases outcome <;> simp [engineError]

theorem engineError_ne_rejected {α : Type} {outcome : Except LatticeFailure α} :
    engineError outcome ≠ .error .rejected := by
  cases outcome <;> simp [engineError]

theorem recordable_iff {command : GraphCommand lib.Float}
    {args : List (ByteString × Arg lib.Float)} (hargs : graphArgs lib command.args = .ok args) :
    Recordable engine graph command ↔
      (∃ graph', mutateGraph engine graph command args = .ok graph' ∧
        Publishes engine graph' command.events) ∨
      mutateGraph engine graph command args = .error .rejected := by
  unfold Recordable mutateGraph
  cases command.streamOffset with
  | some => simp [engineError_eq_ok, engineError_ne_rejected]
  | none =>
    cases command.streamTrim with
    | some => simp [engineError_eq_ok, engineError_ne_rejected]
    | none =>
      simp only [hargs, Except.ok.injEq, exists_eq_left']
      cases hquery : engine.query graph command.cypher args with
      | ok => simp
      | error failure => cases hparse : failure.isDeterministicQuery <;> simp [hparse]

variable {codec : Codec} {window slot durableTip : ℕ} {command : GraphCommand lib.Float}
  {fingerprint : ValueHash} {store : GraphStore engine.Graph} {Graph : Type}

theorem validateGraphCommand_spec (hvalid : validateGraphCommand lib command = .ok ()) :
    (command.requestID ≠ [] ∧ command.requestID.length ≤ maxRequestIDBytes) ∧
      ∃ args, graphArgs lib command.args = .ok args := by
  simp only [validateGraphCommand, bind_eq_ok] at hvalid
  obtain ⟨_, hid, _, -, _, -, _, -, _, -, _, hargs, -⟩ := hvalid
  refine ⟨require_eq_ok.mp hid, graphArgs_isOk lib fun arg hmem => ?_⟩
  have hparameter := requireAll_eq_ok.mp hargs arg hmem
  simp only [validateGraphParameter, bind_eq_ok] at hparameter
  obtain ⟨_, -, converted, hcast, -⟩ := hparameter
  exact ⟨converted, hcast⟩

theorem putRequest_isOk (store : GraphStore Graph) {id : ByteString}
    (hid : id ≠ [] ∧ id.length ≤ maxRequestIDBytes) (request : GraphRequest) :
    ∃ store', store.putRequest id request = .ok store' := by
  refine ⟨_, if_neg ?_⟩
  rw [not_or, not_lt]
  exact hid

/-- A command that was accepted is settled if its outcome is recorded already, or the engine
gives it one that can be. -/
theorem settleCommand_isOk_iff (hvalid : validateGraphCommand lib command = .ok ())
    (hprint : graphFingerprint lib codec command = some fingerprint) :
    (∃ store', settleCommand engine codec window slot command durableTip store = .ok store') ↔
      ((store.pruneGraphRequestsForApply slot durableTip window).requests.lookup
        command.requestID).isSome = true ∨ Recordable engine store.graph command := by
  obtain ⟨hid, args, hargs⟩ := validateGraphCommand_spec hvalid
  have hdeny : ∃ store',
      recordFailureTx engine window slot command fingerprint durableTip store = .ok store' := by
    simp only [recordFailureTx]
    split
    · exact ⟨_, rfl⟩
    · exact putRequest_isOk _ hid _
  unfold settleCommand
  simp only [hprint, hvalid, applyCommandTx, hargs]
  cases hget : (store.pruneGraphRequestsForApply slot durableTip window).requests.lookup
    command.requestID with
  | some existing =>
    refine iff_of_true ?_ (.inl rfl)
    by_cases hsame : existing.fingerprint ≠ fingerprint
    · simpa only [if_pos hsame] using hdeny
    · simp only [if_neg hsame]
      exact ⟨_, rfl⟩
  | none =>
    simp only [Option.isSome_none, Bool.false_eq_true, false_or, recordable_iff hargs]
    cases hmutate : mutateGraph engine store.graph command args with
    | error error =>
      cases error with
      | rejected => simpa using hdeny
      | engine | other => simp
    | ok graph =>
      simp only [Except.ok.injEq, exists_eq_left', reduceCtorEq, or_false, ← publishEvents_isOk]
      cases hpublish : publishEvents engine graph command.events with
      | ok graph' =>
        refine iff_of_true ?_ ⟨graph', rfl⟩
        obtain ⟨store', hput⟩ := putRequest_isOk
          ((store.pruneGraphRequestsForApply slot durableTip window).withGraph graph') hid
          { fingerprint, slot, committed := true }
        simp only [hput]
        exact ⟨store', rfl⟩
      | error error =>
        cases error with
        | rejected => exact absurd hpublish publishEvents_ne_rejected
        | engine | other => simp

/-! ## The commands of a slot -/

variable {entry : GraphJournalEntry} {confirmedThrough : ℕ} {advance : Bool}
  {store' : GraphStore engine.Graph}

/-- The mark touches neither graph nor receipts. -/
theorem mark_content {store store' : GraphStore Graph}
    (h : store.mark entry advance confirmedThrough = .ok store') :
    store'.requests = store.requests ∧ store'.bySlot = store.bySlot := by
  cases advance with
  | true =>
    obtain ⟨-, -, rfl⟩ := advanceGraphMetadata_eq_ok.mp h
    exact ⟨rfl, rfl⟩
  | false =>
    obtain ⟨-, rfl⟩ := setPendingGraphApply_eq_ok.mp h
    exact ⟨rfl, rfl⟩

/-- What a command of the slot adds to the receipts. -/
theorem commitCommand_recorded (hlate : durableTip < entry.slot)
    (h : commitCommand engine codec window entry command advance confirmedThrough durableTip
      store = .ok store') :
    store'.Swept entry.slot durableTip window ∧
      GraphStore.Keeps (store.pruneGraphRequestsForApply entry.slot durableTip window) store' ∧
      ((store'.requests.lookup command.requestID).isSome ∨ command.requestID = []) := by
  unfold commitCommand at h
  split at h
  · cases h
  · rename_i settled hend
    have hset := settled_settleCommand hend
    obtain ⟨hasks, hbySlot⟩ := mark_content h
    refine ⟨?_, ?_, ?_⟩
    · intro expired hdue
      rw [hbySlot]
      exact hset.swept hlate expired hdue
    · intro id request hold
      rw [hasks]
      exact hset.keeps id request hold
    · rw [hasks]
      exact hset.recorded

variable (engine codec window)

/-- Each command, in the state that those before it leave, has a recorded outcome or gets one
that can be recorded. -/
def Answerable (entry : GraphJournalEntry) (confirmedThrough durableTip : ℕ) :
    GraphStore engine.Graph → List (GraphCommand lib.Float) → Prop
  | _, [] => True
  | store, command :: rest =>
    (((store.pruneGraphRequestsForApply entry.slot durableTip window).requests.lookup
      command.requestID).isSome = true ∨ Recordable engine store.graph command) ∧
    ∀ store', commitCommand engine codec window entry command rest.isEmpty confirmedThrough
      durableTip store = .ok store' → Answerable entry confirmedThrough durableTip store' rest

variable {engine codec window}

variable {commands : List (GraphCommand lib.Float)} {state : GraphState engine.Graph}

theorem applyCommands_keeps {budget budget' : Budget}
    {state' : GraphState engine.Graph} {result : Except GraphError Unit}
    (hlate : state.durableTip < entry.slot)
    (hswept : state.store.Swept entry.slot state.durableTip window)
    (h : applyCommands engine codec window entry confirmedThrough commands budget state =
      (state', budget', result)) : GraphStore.Keeps state.store state'.store := by
  induction commands generalizing budget state with
  | nil =>
    cases h
    exact .refl _
  | cons command rest ih =>
    simp only [applyCommands] at h
    split at h
    · cases h
      exact .refl _
    rename_i store hsave
    obtain ⟨hswept', hkeeps, -⟩ := commitCommand_recorded hlate hsave
    rw [hswept.pruneForApply_eq_self] at hkeeps
    split at h
    · cases h
      exact .refl _
    · refine hkeeps.trans (ih ?_ ?_ h)
      · exact hlate
      · exact hswept'

theorem applyCommands_recorded {budget budget' : Budget} {state' : GraphState engine.Graph}
    (hlate : state.durableTip < entry.slot)
    (h : applyCommands engine codec window entry confirmedThrough commands budget state =
      (state', budget', .ok ())) :
    ∀ command ∈ commands, (state'.store.requests.lookup command.requestID).isSome ∨
      command.requestID = [] := by
  induction commands generalizing budget state with
  | nil => exact nofun
  | cons command rest ih =>
    simp only [applyCommands] at h
    split at h
    · cases h
    rename_i store hsave
    obtain ⟨hswept, -, hrec⟩ := commitCommand_recorded hlate hsave
    split at h
    · cases h
    · refine List.forall_mem_cons.mpr ⟨hrec.imp_left fun hsome => ?_, ih ?_ h⟩
      · obtain ⟨request, hask⟩ := Option.isSome_iff_exists.mp hsome
        have hkeeps : GraphStore.Keeps store state'.store := by
          refine applyCommands_keeps ?_ ?_ h
          · exact hlate
          · exact hswept
        rw [hkeeps _ request hask]
        rfl
      · exact hlate

theorem commitCommand_isOk_iff (advance : Bool) (confirmedThrough : ℕ)
    (hvalid : validateGraphCommand lib command = .ok ())
    (hprint : graphFingerprint lib codec command = some fingerprint)
    (hpend : ∀ pending ∈ store.pending, pending = entry)
    (hbook : ∀ last ∈ store.journal, last.slot < entry.slot) :
    (∃ store', commitCommand engine codec window entry command advance confirmedThrough durableTip
      store = .ok store') ↔
      ((store.pruneGraphRequestsForApply entry.slot durableTip window).requests.lookup
        command.requestID).isSome = true ∨ Recordable engine store.graph command := by
  rw [← settleCommand_isOk_iff hvalid hprint]
  unfold commitCommand
  cases hend : settleCommand engine codec window entry.slot command durableTip store with
  | error => simp
  | ok settled =>
    have hsame := sameProgress_settleCommand hend
    refine iff_of_true (mark_isOk ?_ ?_ advance confirmedThrough) ⟨settled, rfl⟩
    · exact hsame.pending ▸ hpend
    · exact hsame.journal ▸ hbook

/-- The commands of the next slot go through just if they can be answered. -/
theorem applyCommands_ok_iff
    (hpend : ∀ pending ∈ state.store.pending, pending = entry)
    (hbook : ∀ last ∈ state.store.journal, last.slot < entry.slot)
    (hvalid : ∀ command ∈ commands, validateGraphCommand lib command = .ok ())
    (hprint : ∀ command ∈ commands, ∃ fingerprint,
      graphFingerprint lib codec command = some fingerprint) :
    (∃ state', applyCommands engine codec window entry confirmedThrough commands none state =
      (state', none, .ok ())) ↔
      Answerable engine codec window entry confirmedThrough state.durableTip state.store
        commands := by
  induction commands generalizing state with
  | nil => exact iff_of_true ⟨state, rfl⟩ trivial
  | cons command rest ih =>
    obtain ⟨hvalid, hvalids⟩ := List.forall_mem_cons.mp hvalid
    obtain ⟨⟨fingerprint, hprint⟩, hfingerprints⟩ := List.forall_mem_cons.mp hprint
    simp only [applyCommands, Answerable,
      ← commitCommand_isOk_iff rest.isEmpty confirmedThrough hvalid hprint hpend
        hbook]
    cases hsave : commitCommand engine codec window entry command rest.isEmpty confirmedThrough
      state.durableTip state.store with
    | error => simp
    | ok =>
      simp only [Budget.spend, Except.ok.injEq, exists_eq', true_and, forall_eq']
      cases rest with
      | nil => exact iff_of_true ⟨_, rfl⟩ trivial
      | cons =>
        obtain ⟨-, hmark, hsame⟩ := commitCommand_inner hsave
        apply ih _ _ hvalids hfingerprints
        · intro pending hmem
          exact (Option.some_inj.mp (hmark.symm.trans hmem)).symm
        · exact hsame ▸ hbook

end Command

/-! ## The next slot -/

namespace GraphSite

variable {site : GraphSite}

/-- A decided batch of accepted commands is applied with a receipt for each of them just if
the engine carries each command out, or fails to parse it, where no receipt is there already. -/
theorem applyGraph_answers_iff (site : GraphSite) (graph : site.engine.Graph)
    (database : site.Database) (events : List NodeEvent) (node : Node site)
    (hrun : runFrom Node.step (Node.initial site graph database) events = some node)
    (commands : List (GraphCommand site.lib.Float))
    (hdecode : decodeGraphBatch site.lib (site.log (node.graph.tip + 1)) = .ok (some commands))
    (haccepted : ∀ command ∈ commands, validateGraphCommandAdmission site.lib command = .ok ())
    (confirmedThrough : ℕ) :
    (∃ graph', site.applyGraphAt confirmedThrough (node.graph.tip + 1) none node.graph =
        (graph', none, .ok ()) ∧
      ∀ command ∈ commands, ∃ request,
        graph'.store.requests.lookup command.requestID = some request) ↔
      Answerable site.engine site.codec site.window (site.entry (node.graph.tip + 1))
        confirmedThrough node.graph.durableTip node.graph.store commands := by
  obtain ⟨commit, -, horderly⟩ := ((Node.orderly_initial graph database).run hrun).beside
  obtain ⟨hpending, hnext⟩ := horderly.applyGraphAt_next hdecode confirmedThrough none
  have hvalid : ∀ command ∈ commands, validateGraphCommand site.lib command = .ok () := by
    intro command hmem
    exact (seq_eq_ok.mp (haccepted command hmem)).1
  have hlate : node.graph.durableTip < (site.entry (node.graph.tip + 1)).slot :=
    Nat.lt_succ_of_le (horderly.durable ▸ horderly.durable_le)
  rw [← applyCommands_ok_iff hpending
    (fun last hlast => Nat.lt_succ_of_le ((horderly.journal_le last hlast).trans
      horderly.durable_le)) hvalid
    (fun command hmem => by
      obtain ⟨json, hjson⟩ := (decodeGraphBatch_eq_some _ hdecode).2 command hmem
      exact graphFingerprint_isSome _ hjson site.codec), hnext]
  constructor
  · rintro ⟨graph', happly, -⟩
    rcases hcommands : applyCommands site.engine site.codec site.window
      (site.entry (node.graph.tip + 1)) confirmedThrough commands none node.graph
      with ⟨state, budget, outcome⟩
    rw [hcommands] at happly
    cases outcome with
    | error => cases happly
    | ok =>
      cases happly
      exact ⟨state, rfl⟩
  · rintro ⟨state, hcommands⟩
    rw [hcommands]
    refine ⟨_, rfl, fun command hmem => ?_⟩
    have hid := (validateGraphCommand_spec (hvalid command hmem)).1.1
    exact Option.isSome_iff_exists.mp
      ((applyCommands_recorded hlate hcommands command hmem).resolve_right hid)

end GraphSite

/-! ## A query that fails when it runs -/

/-- An engine that keeps the queries it has run. It refuses to parse an empty text, and a
division by zero fails when it is run. -/
def listEngine : LatticeEngine Library.whole.Float where
  Graph := List ByteString
  query graph cypher _ :=
    if cypher = bytesOf "RETURN 1/0" then
      .error { canceled := false, resourceLimit := false, writeTxActive := false
               recoveryRequired := false, database := none, query := some (.other, .execution) }
    else .ok (cypher :: graph)
  setStreamOffset graph _ := .ok graph
  trimStream graph _ := .ok graph
  publishStream graph _ _ _ := .ok graph

def cypherCommand (requestID cypher : ByteString) : GraphCommand Library.whole.Float :=
  { requestID, cypher, args := [], events := [], streamOffset := none, streamTrim := none }

/-- A log whose values all carry the one command. -/
def cypherSite (cypher : ByteString) : GraphSite where
  lib := .whole
  engine := listEngine
  codec := .tabled []
  window := 1024
  known _ := true
  Database := Unit
  applySQL _ _ _ := .ok ()
  log _ := graphBatchMagic ++ 91 ::
    ((cypherCommand (bytesOf "r1") cypher).marshal .whole).elim [] Json.encode ++ [93]

/-- The commands of the first slot, if they are all accepted. -/
def acceptedCypher (cypher : ByteString) : Option (List (GraphCommand Library.whole.Float)) :=
  match decodeGraphBatch .whole ((cypherSite cypher).log 1) with
  | .ok (some commands) =>
    if commands.all fun command => (validateGraphCommandAdmission .whole command).isOk then
      some commands
    else none
  | _ => none

theorem isOk_unit {outcome : Checked Unit} (h : outcome.isOk = true) : outcome = .ok () := by
  cases outcome with
  | error => cases h
  | ok => rfl

variable {commands : List (GraphCommand Library.whole.Float)}

theorem acceptedCypher_eq_some {cypher : ByteString} (h : acceptedCypher cypher = some commands) :
    decodeGraphBatch .whole ((cypherSite cypher).log 1) = .ok (some commands) ∧
      ∀ command ∈ commands, validateGraphCommandAdmission .whole command = .ok () := by
  unfold acceptedCypher at h
  split at h
  · rename_i decoded hgot
    split at h
    · rename_i hall
      cases h
      exact ⟨hgot, fun command hmem => isOk_unit (List.all_eq_true.mp hall command hmem)⟩
    · cases h
  · cases h

/-- One accepted query that fails when it runs stops the log. -/
theorem applyGraph_unanswered : ¬ ∀ (site : GraphSite) (graph : site.engine.Graph)
    (database : site.Database) (events : List GraphSite.NodeEvent) (node : GraphSite.Node site),
    runFrom GraphSite.Node.step (GraphSite.Node.initial site graph database) events = some node →
    ∀ commands : List (GraphCommand site.lib.Float),
      decodeGraphBatch site.lib (site.log (node.graph.tip + 1)) = .ok (some commands) →
      (∀ command ∈ commands, validateGraphCommandAdmission site.lib command = .ok ()) →
      ∀ confirmedThrough, ∃ graph',
        site.applyGraphAt confirmedThrough (node.graph.tip + 1) none node.graph =
          (graph', none, .ok ()) := by
  intro hall
  obtain ⟨commands, hcommands⟩ :
      ∃ commands, acceptedCypher (bytesOf "RETURN 1/0") = some commands :=
    Option.isSome_iff_exists.mp (by decide +kernel)
  obtain ⟨hdecode, haccepted⟩ := acceptedCypher_eq_some hcommands
  obtain ⟨graph', happly⟩ := hall (cypherSite (bytesOf "RETURN 1/0")) [] () [] _ rfl commands
    hdecode haccepted 0
  have hfails : ((cypherSite (bytesOf "RETURN 1/0")).applyGraphAt 0 1 none
      (GraphSite.Node.initial (cypherSite (bytesOf "RETURN 1/0")) [] ()).graph).2.2.isOk =
        false := by
    decide +kernel
  rw [show (1 : ℕ) =
      (GraphSite.Node.initial (cypherSite (bytesOf "RETURN 1/0")) [] ()).graph.tip + 1
    from rfl, happly] at hfails
  cases hfails

theorem recordable_listEngine {graph : List ByteString}
    {command : GraphCommand Library.whole.Float} (hcypher : command.cypher ≠ bytesOf "RETURN 1/0")
    (hevents : command.events = []) (hvalid : validateGraphCommand .whole command = .ok ()) :
    Recordable listEngine graph command := by
  obtain ⟨-, args, hargs⟩ := validateGraphCommand_spec hvalid
  unfold Recordable
  rw [hevents]
  split
  · exact ⟨graph, rfl, trivial⟩
  · exact ⟨graph, rfl, trivial⟩
  · exact ⟨args, hargs, .inl ⟨command.cypher :: graph, if_neg hcypher, trivial⟩⟩

theorem answerable_listEngine {codec : Codec} {window : ℕ} {entry : GraphJournalEntry}
    {confirmedThrough durableTip : ℕ} {store : GraphStore listEngine.Graph}
    (h : ∀ command ∈ commands, ∀ graph, Recordable listEngine graph command) :
    Answerable listEngine codec window entry confirmedThrough durableTip store commands := by
  induction commands generalizing store with
  | nil => trivial
  | cons command rest ih =>
    obtain ⟨hrecordable, hrest⟩ := List.forall_mem_cons.mp h
    exact ⟨.inr (hrecordable store.graph), fun store' _ => ih hrest⟩

/-- A query that runs is answered. -/
theorem applyGraph_answers_create :
    ∃ commands, acceptedCypher (bytesOf "CREATE (:Item)") = some commands ∧ ∃ graph',
      (cypherSite (bytesOf "CREATE (:Item)")).applyGraphAt 0 1 none
        (GraphSite.Node.initial (cypherSite (bytesOf "CREATE (:Item)")) [] ()).graph =
          (graph', none, .ok ()) ∧
      ∀ command ∈ commands, ∃ request,
        graph'.store.requests.lookup command.requestID = some request := by
  obtain ⟨commands, hcommands⟩ : ∃ commands,
      acceptedCypher (bytesOf "CREATE (:Item)") = some commands :=
    Option.isSome_iff_exists.mp (by decide +kernel)
  obtain ⟨hdecode, haccepted⟩ := acceptedCypher_eq_some hcommands
  refine ⟨commands, hcommands, ?_⟩
  apply (GraphSite.applyGraph_answers_iff (cypherSite (bytesOf "CREATE (:Item)")) [] () [] _ rfl
    commands hdecode haccepted 0).mpr
  have hplain : (acceptedCypher (bytesOf "CREATE (:Item)")).any (fun commands =>
      commands.all fun command => command.cypher ≠ bytesOf "RETURN 1/0" ∧
        command.events.isEmpty) = true := by
    decide +kernel
  rw [hcommands, Option.any_some, List.all_eq_true] at hplain
  apply answerable_listEngine
  intro command hmem graph
  obtain ⟨hcypher, hevents⟩ := of_decide_eq_true (hplain command hmem)
  exact recordable_listEngine hcypher (List.isEmpty_iff.mp hevents)
    (seq_eq_ok.mp (haccepted command hmem)).1

end Rhiza.Materializer
