import Rhiza.Commands.Graph
import Rhiza.Foundations.Table

/-! # Applying graph commands

The graph lives in a store of its own, which commits apart from the database. Beside the graph
it keeps the receipts of graph commands, the slot it has applied, a journal of the graph slots
that the database may not have committed yet, and a marker for a slot of which only some
commands are applied. Each command is one transaction. The slot of values without graph
commands is counted in memory only.

A transaction can fail for a local reason; a budget says how many transactions commit before
one does.
-/

namespace Rhiza.Materializer

open Foundations Commands

/-! ## The graph engine -/

inductive LatticeErrorCode where
  | io
  | corruption
  | checksum
  | versionMismatch
  | outOfMemory
  | databaseLocked
  | full
  | valueTooLarge
  | other
  deriving DecidableEq

inductive QueryErrorStage where
  | parse
  | plan
  | execution
  deriving DecidableEq

/-- An error of the engine, as the tests of wrapped errors see it. -/
structure LatticeFailure where
  canceled : Bool
  resourceLimit : Bool
  writeTxActive : Bool
  recoveryRequired : Bool
  database : Option LatticeErrorCode
  query : Option (LatticeErrorCode × QueryErrorStage)

namespace LatticeFailure

def isInfrastructure (failure : LatticeFailure) : Bool :=
  failure.canceled || failure.resourceLimit || failure.writeTxActive ||
    failure.recoveryRequired || failure.database.any (· ≠ .other) ||
    failure.query.any fun query => query.1 ≠ .other

/-- Whether every replica meets the error, so that it may become a rejection. -/
def isDeterministicQuery (failure : LatticeFailure) : Bool :=
  !failure.isInfrastructure && failure.query.any fun query => query.2 = .parse

end LatticeFailure

/-- A deterministic graph engine. -/
structure LatticeEngine (Float : Type) where
  Graph : Type
  query : Graph → ByteString → List (ByteString × Arg Float) → Except LatticeFailure Graph
  setStreamOffset : Graph → GraphStreamOffsetMutation → Except LatticeFailure Graph
  trimStream : Graph → GraphStreamTrimMutation → Except LatticeFailure Graph
  publishStream : Graph → (stream kind : ByteString) → Arg Float → Except LatticeFailure Graph

inductive GraphError where
  /-- The command is at fault, and its rejection is recorded. -/
  | rejected
  | engine (failure : LatticeFailure)
  | other (message : String)

/-! ## The store -/

structure GraphJournalEntry where
  slot : ℕ
  hash : ValueHash
  deriving DecidableEq

structure GraphRequest where
  fingerprint : ValueHash
  slot : ℕ
  committed : Bool

/-- What a graph transaction reads and writes. -/
structure GraphStore (Graph : Type) where
  graph : Graph
  requests : Table ByteString GraphRequest
  /-- The request ids recorded at a slot. -/
  bySlot : Table ℕ (List ByteString)
  journal : List GraphJournalEntry
  tip : ℕ
  pending : Option GraphJournalEntry

namespace GraphStore

variable {Graph : Type}

def withGraph (store : GraphStore Graph) (graph : Graph) : GraphStore Graph := { store with graph }

def pruneGraphRequests (store : GraphStore Graph) (slot : ℕ) : GraphStore Graph :=
  match store.bySlot.lookup slot with
  | none => store
  | some ids =>
    { store with
      requests := ids.foldl (fun requests id => requests.erase id) store.requests
      bySlot := store.bySlot.erase slot }

/-- Removes the receipts that left the window before the slot. -/
def pruneGraphRequestsForApply (store : GraphStore Graph) (slot durableTip window : ℕ) :
    GraphStore Graph :=
  if durableTip = 0 ∨ slot ≤ window then store
  else
    let through := min durableTip (slot - window)
    let start := if window ≤ durableTip then durableTip - window + 1 else 1
    (List.range' start (through + 1 - start)).foldl pruneGraphRequests store

def putRequest (store : GraphStore Graph) (id : ByteString) (request : GraphRequest) :
    Except GraphError (GraphStore Graph) :=
  if id = [] ∨ maxRequestIDBytes < id.length then .error (.other "invalid graph request ID length")
  else .ok
    { store with
      requests := store.requests.insert id request
      bySlot := store.bySlot.insert request.slot
        ((store.bySlot.lookup request.slot).getD [] ++ [id]) }

def setPendingGraphApply (store : GraphStore Graph) (entry : GraphJournalEntry) :
    Except GraphError (GraphStore Graph) :=
  if store.pending.any (· ≠ entry) then
    .error (.other "pending graph apply marker conflicts with slot")
  else .ok { store with pending := some entry }

/-- The journal without the slots that the database has committed. -/
def pendingGraphJournal (entries : List GraphJournalEntry) (through : ℕ) :
    List GraphJournalEntry :=
  entries.dropWhile fun entry => entry.slot ≤ through

def advanceGraphMetadata (store : GraphStore Graph) (entry : GraphJournalEntry)
    (confirmedThrough : ℕ) : Except GraphError (GraphStore Graph) :=
  let journal := pendingGraphJournal store.journal confirmedThrough
  if store.pending.any (· ≠ entry) then
    .error (.other "pending graph apply marker conflicts with completed slot")
  else if journal.getLast?.any (entry.slot ≤ ·.slot) then
    .error (.other "graph recovery journal slot order")
  else .ok { store with journal := journal ++ [entry], tip := entry.slot, pending := none }

/-- Marks the slot as applied after its last command, as begun after another one. -/
def mark (store : GraphStore Graph) (entry : GraphJournalEntry) (advance : Bool)
    (confirmedThrough : ℕ) : Except GraphError (GraphStore Graph) :=
  if advance then store.advanceGraphMetadata entry confirmedThrough
  else store.setPendingGraphApply entry

end GraphStore

/-! ## Commands -/

section Commands

variable {lib : Library} (engine : LatticeEngine lib.Float) (codec : Codec) (window : ℕ)

def engineError {α : Type} : Except LatticeFailure α → Except GraphError α
  | .ok value => .ok value
  | .error failure => .error (.engine failure)

/-- The engine call of the command. Only a failed query can be a rejection. -/
def mutateGraph (graph : engine.Graph) (command : GraphCommand lib.Float)
    (args : List (ByteString × Arg lib.Float)) : Except GraphError engine.Graph :=
  match command.streamOffset, command.streamTrim with
  | some offset, _ => engineError (engine.setStreamOffset graph offset)
  | none, some trim => engineError (engine.trimStream graph trim)
  | none, none =>
    match engine.query graph command.cypher args with
    | .ok graph => .ok graph
    | .error failure =>
      if failure.isDeterministicQuery then .error .rejected else .error (.engine failure)

def publishEvents : engine.Graph → List (GraphStreamEvent lib.Float) →
    Except GraphError engine.Graph
  | graph, [] => .ok graph
  | graph, event :: events =>
    match graphArg lib event.payload with
    | .error message => .error (.other message)
    | .ok payload =>
      match engine.publishStream graph event.stream event.kind payload with
      | .error failure => .error (.engine failure)
      | .ok graph => publishEvents graph events

/-- The transaction of `applyCommand` up to the mark at its end. -/
def applyCommandTx (slot : ℕ) (command : GraphCommand lib.Float) (fingerprint : ValueHash)
    (durableTip : ℕ) (store : GraphStore engine.Graph) :
    Except GraphError (GraphStore engine.Graph) :=
  match graphArgs lib command.args with
  | .error _ => .error .rejected
  | .ok args =>
    match (store.pruneGraphRequestsForApply slot durableTip window).requests.lookup
      command.requestID with
    | some existing =>
      if existing.fingerprint ≠ fingerprint then .error .rejected
      else .ok (store.pruneGraphRequestsForApply slot durableTip window)
    | none =>
      match mutateGraph engine store.graph command args with
      | .error error => .error error
      | .ok graph =>
        match publishEvents engine graph command.events with
        | .error error => .error error
        | .ok graph =>
          ((store.pruneGraphRequestsForApply slot durableTip window).withGraph graph).putRequest
            command.requestID { fingerprint, slot, committed := true }

/-- The transaction of `recordFailure` up to the mark at its end. -/
def recordFailureTx (slot : ℕ) (command : GraphCommand lib.Float) (fingerprint : ValueHash)
    (durableTip : ℕ) (store : GraphStore engine.Graph) :
    Except GraphError (GraphStore engine.Graph) :=
  let pruned := store.pruneGraphRequestsForApply slot durableTip window
  if (pruned.requests.lookup command.requestID).isSome ∨ command.requestID = [] then .ok pruned
  else pruned.putRequest command.requestID { fingerprint, slot, committed := false }

/-- What a command does to graph and receipts, be it applied or rejected. -/
def settleCommand (slot : ℕ) (command : GraphCommand lib.Float) (durableTip : ℕ)
    (store : GraphStore engine.Graph) : Except GraphError (GraphStore engine.Graph) :=
  match graphFingerprint lib codec command with
  | none => .error (.other "graph command cannot be encoded")
  | some fingerprint =>
    match validateGraphCommand lib command with
    | .error _ => recordFailureTx engine window slot command fingerprint durableTip store
    | .ok () =>
      match applyCommandTx engine window slot command fingerprint durableTip store with
      | .error .rejected => recordFailureTx engine window slot command fingerprint durableTip store
      | outcome => outcome

/-- One command of a slot. Both transactions end with the mark. -/
def commitCommand (entry : GraphJournalEntry) (command : GraphCommand lib.Float)
    (advance : Bool) (confirmedThrough durableTip : ℕ) (store : GraphStore engine.Graph) :
    Except GraphError (GraphStore engine.Graph) :=
  match settleCommand engine codec window entry.slot command durableTip store with
  | .error error => .error error
  | .ok store => store.mark entry advance confirmedThrough

/-! ## Slots -/

/-- The graph side of a materializer. -/
structure GraphState (Graph : Type) where
  store : GraphStore Graph
  tip : ℕ
  durableTip : ℕ
  pending : Option GraphJournalEntry

/-- How many transactions commit before one fails, if any does. -/
abbrev Budget := Option ℕ

/-- The budget after a transaction, unless this one fails. -/
def Budget.spend : Budget → Option Budget
  | none => some none
  | some 0 => none
  | some (n + 1) => some (some n)

/-- Applies the commands of a slot from one on. A failure leaves those before it applied. -/
def applyCommands (entry : GraphJournalEntry) (confirmedThrough : ℕ) :
    List (GraphCommand lib.Float) → Budget → GraphState engine.Graph →
      GraphState engine.Graph × Budget × Except GraphError Unit
  | [], budget, state => (state, budget, .ok ())
  | command :: rest, budget, state =>
    match commitCommand engine codec window entry command rest.isEmpty confirmedThrough
      state.durableTip state.store with
    | .error error => (state, budget, .error error)
    | .ok store =>
      match budget.spend with
      | none => (state, budget, .error (.other "graph transaction failed"))
      | some budget =>
        applyCommands entry confirmedThrough rest budget
          { state with store, pending := if rest.isEmpty then none else some entry }

/-- Moves to the slot once all of its commands went through. -/
def finishSlot {Graph : Type} (slot : ℕ) :
    GraphState Graph × Budget × Except GraphError Unit →
      GraphState Graph × Budget × Except GraphError Unit
  | (state, budget, .ok ()) => ({ state with tip := slot, durableTip := slot }, budget, .ok ())
  | failed => failed

/-- Applies a decided value. Without graph commands only the slot moves on. -/
def applyGraph (known : ByteString → Bool) (slot : ℕ) (value : ByteString)
    (commands : Option (List (GraphCommand lib.Float))) (confirmedThrough : ℕ) (budget : Budget)
    (state : GraphState engine.Graph) :
    GraphState engine.Graph × Budget × Except GraphError Unit :=
  let entry : GraphJournalEntry := ⟨slot, codec.sha256 (coreBytes value)⟩
  let fail (message : String) := (state, budget, Except.error (GraphError.other message))
  if state.pending.any fun pending => pending.slot < slot ∨
      (slot = pending.slot ∧ (commands.isNone ∨ pending ≠ entry)) then
    fail "graph slot publication is incomplete"
  else if commands.isSome ∧ state.tip < slot ∧ state.pending.any (slot < ·.slot) then
    fail "graph slot has no completed recovery evidence before pending slot"
  else if slot ≤ state.tip then
    match state.store.journal.find? (·.slot = slot) with
    | some found =>
      if found ≠ entry then fail "graph applied slot hash conflict" else (state, budget, .ok ())
    | none =>
      if commands.isSome then fail "graph applied slot is missing from recovery journal"
      else if known value then (state, budget, .ok ())
      else fail "unrecognized replicated command"
  else if slot ≠ state.tip + 1 then fail "graph apply slot gap"
  else
    match commands with
    | none =>
      if known value then ({ state with tip := slot }, budget, .ok ())
      else fail "unrecognized replicated command"
    | some commands =>
      finishSlot slot
        (applyCommands engine codec window entry confirmedThrough commands budget state)

/-- Opens the store beside a database that has applied the slots up to the given one. -/
def openGraph (sqliteTip : ℕ) (store : GraphStore engine.Graph) :
    Checked (GraphState engine.Graph) := do
  require (∀ entry ∈ store.journal, entry.slot ≤ store.tip)
    "graph recovery journal exceeds durable graph slot"
  require (∀ pending ∈ store.pending, sqliteTip < pending.slot ∧ store.tip < pending.slot)
    "pending graph slot is not ahead of SQLite and completed graph tips"
  let journal := GraphStore.pendingGraphJournal store.journal sqliteTip
  require (store.tip ≤ sqliteTip ∨ (journal.getLast?.any (·.slot = store.tip)) = true)
    "graph recovery journal does not cover durable graph slot"
  .ok { store := { store with journal }, tip := max store.tip sqliteTip
        durableTip := store.tip, pending := store.pending }

/-- The store of a new replica. -/
def GraphStore.fresh {Graph : Type} (graph : Graph) : GraphStore Graph :=
  { graph, requests := ∅, bySlot := ∅, journal := [], tip := 0, pending := none }

end Commands

end Rhiza.Materializer
