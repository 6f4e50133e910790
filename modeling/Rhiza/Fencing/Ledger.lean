import Rhiza.Foundations.Check
import Rhiza.Foundations.Table

/-! # The fencing ledger

One source generation's record of supervised runs: which were registered, which write-ahead log
each is bound to, who asked them to stop and what proves that they did. A change is persisted only
when it returns nil.
-/

namespace Rhiza.Fencing

open Foundations

/-- One launch of a supervisor. The log is assigned once, before writers start. -/
structure Identity where
  sourceClusterID : String
  nodeID : String
  podUID : String
  runID : String
  walIdentity : String
  deriving DecidableEq, Inhabited

structure StopRequest where
  operationID : String
  requestHash : String
  identity : Identity
  deriving DecidableEq

structure DrainReceipt where
  request : StopRequest
  writersJoined : Bool
  pendingMutations : ℕ
  unknownMutations : ℕ
  deriving DecidableEq

def DrainReceipt.clean (receipt : DrainReceipt) : Bool :=
  receipt.writersJoined && receipt.pendingMutations = 0 && receipt.unknownMutations = 0

structure Run where
  identity : Identity
  stop : Option StopRequest := none
  drain : Option DrainReceipt := none
  exited : Bool := false
  neverBoundExit : Option StopRequest := none
  deriving DecidableEq

structure Ledger where
  sourceClusterID : String
  closedBy : String
  closedHash : String
  closedNodes : Table String StopRequest
  runs : Table String Run

def errPending : String := "fencing: evidence pending"

def errClosed : String := "fencing: incarnation terminally fenced"

/-- An earlier run of the node on another pod whose end is not proven. -/
def Run.obstructs (run : Run) (identity : Identity) : Bool :=
  run.identity.nodeID = identity.nodeID && run.identity.podUID ≠ identity.podUID &&
    (!run.exited || !run.drain.any DrainReceipt.clean)

/-- Asks the run to stop, unless it was asked before. -/
def Run.requestStop (run : Run) (operationID requestHash : String) : Run :=
  if run.stop.isSome then run
  else { run with stop := some ⟨operationID, requestHash, run.identity⟩ }

/-- The run was stopped and its end is proven. -/
def Run.finished (run : Run) : Bool :=
  match run.stop with
  | none => false
  | some stop =>
    stop.identity = run.identity && stop.operationID ≠ "" && stop.requestHash ≠ "" && run.exited &&
      match run.neverBoundExit with
      | some request => run.identity.walIdentity = "" && run.drain = none && request = stop
      | none =>
        run.identity.walIdentity ≠ "" &&
          run.drain.any fun drain => drain.request = stop && drain.clean

namespace Ledger

def fresh (sourceClusterID : String) : Ledger := ⟨sourceClusterID, "", "", ∅, ∅⟩

def register (ledger : Ledger) (identity : Identity) : Checked Ledger := do
  require (identity.sourceClusterID = ledger.sourceClusterID ∧ identity.nodeID ≠ "" ∧
    identity.podUID ≠ "" ∧ identity.runID ≠ "" ∧ identity.walIdentity = "")
    "fencing: invalid registration"
  require (ledger.closedBy = "") errClosed
  require ((ledger.closedNodes.lookup identity.nodeID).isNone) errClosed
  match ledger.runs.lookup identity.runID with
  | some old =>
    -- A caller may resolve an uncertain response, but not reuse a bound run.
    require (old.identity = identity ∧ old.stop = none) "fencing: run ID already registered"
    return ledger
  | none =>
    require (ledger.runs.values.all fun old => !old.obstructs identity)
      "fencing: earlier incarnation has no clean termination proof"
    return { ledger with runs := ledger.runs.insert identity.runID { identity := identity } }

def bind (ledger : Ledger) (identity : Identity) : Checked Ledger := do
  match ledger.runs.lookup identity.runID with
  | none => throw "fencing: unknown WAL registration"
  | some run =>
    require (identity.walIdentity ≠ "") "fencing: unknown WAL registration"
    require ({ identity with walIdentity := run.identity.walIdentity } = run.identity ∧
      (run.identity.walIdentity = "" ∨ run.identity.walIdentity = identity.walIdentity))
      "fencing: binding changed"
    require (ledger.closedBy = "" ∧ run.stop = none) errClosed
    require (ledger.runs.values.all fun old =>
      old.identity.runID = identity.runID || old.identity.nodeID ≠ identity.nodeID ||
        old.identity.walIdentity = "" || old.identity.walIdentity = identity.walIdentity)
      "fencing: restarted voter must retain its historical WAL"
    return { ledger with runs := ledger.runs.insert identity.runID { run with identity } }

/-- Permanently closes the generation. -/
def close (ledger : Ledger) (operationID requestHash : String) : Checked Ledger := do
  require (operationID ≠ "" ∧ requestHash ≠ "") "fencing: empty operation"
  require (ledger.closedBy = "" ∨ ledger.closedBy = operationID) errClosed
  require (ledger.closedBy ≠ operationID ∨ ledger.closedHash = requestHash)
    "fencing: immutable request hash changed"
  return { ledger with
    closedBy := operationID, closedHash := requestHash
    runs := ledger.runs.mapValues fun run => run.requestStop operationID requestHash }

/-- The closure of this node is of this operation. -/
def closedFor (ledger : Ledger) (operationID requestHash nodeID : String) : Bool :=
  (ledger.closedNodes.lookup nodeID).any fun old =>
    old.operationID = operationID && old.requestHash = requestHash

/-- Fences one voter slot. The closure keeps no identity. -/
def closeNode (operationID requestHash : String) (ledger : Ledger) (nodeID : String) : Ledger :=
  { ledger with
    closedNodes := ledger.closedNodes.insert nodeID ⟨operationID, requestHash, ⟨"", "", "", "", ""⟩⟩
    runs := ledger.runs.mapValues fun run =>
      if run.identity.nodeID = nodeID then run.requestStop operationID requestHash else run }

/-- Fences voter slots; without any it is the whole generation. -/
def closeNodes (ledger : Ledger) (operationID requestHash : String) (nodeIDs : List String) :
    Checked Ledger := do
  if nodeIDs = [] then
    ledger.close operationID requestHash
  else
    require (operationID ≠ "" ∧ requestHash ≠ "") errClosed
    if ledger.closedBy ≠ "" then
      -- An earlier operation may finish after the generation was closed, but changes nothing.
      require (nodeIDs.all fun nodeID => ledger.closedFor operationID requestHash nodeID) errClosed
      return ledger
    else
      requireAll (fun nodeID => do
        require (nodeID ≠ "") "fencing: empty voter slot"
        require ((ledger.closedNodes.lookup nodeID).all fun old =>
          old.operationID ≠ operationID || old.requestHash = requestHash)
          "fencing: immutable voter request hash changed") nodeIDs
      return nodeIDs.foldl (closeNode operationID requestHash) ledger

def recordDrain (ledger : Ledger) (receipt : DrainReceipt) : Checked Ledger := do
  match ledger.runs.lookup receipt.request.identity.runID with
  | none => throw "fencing: unmatched drain"
  | some run =>
    require (run.stop = some receipt.request) "fencing: unmatched drain"
    require (run.neverBoundExit = none) "fencing: never-bound exit cannot become a drain"
    require (run.drain = none ∨ run.drain = some receipt) "fencing: drain receipt cannot change"
    return { ledger with
      runs := ledger.runs.insert run.identity.runID { run with drain := some receipt } }

def recordExit (ledger : Ledger) (request : StopRequest) : Checked Ledger := do
  match ledger.runs.lookup request.identity.runID with
  | none => throw errPending
  | some run =>
    require (run.identity.walIdentity ≠ "" ∧ run.stop = some request ∧
      run.drain.any DrainReceipt.clean) errPending
    return { ledger with
      runs := ledger.runs.insert request.identity.runID { run with exited := true } }

def recordNeverBoundExit (ledger : Ledger) (request : StopRequest) : Checked Ledger := do
  match ledger.runs.lookup request.identity.runID with
  | none => throw "fencing: never-bound exit is not proven"
  | some run =>
    require (run.identity.walIdentity = "" ∧ run.drain = none ∧ request.identity = run.identity ∧
      run.stop = some request) "fencing: never-bound exit is not proven"
    require (ledger.closedBy ≠ "" ∨ (ledger.closedNodes.lookup run.identity.nodeID).isSome)
      errPending
    return { ledger with
      runs := ledger.runs.insert request.identity.runID
        { run with exited := true, neverBoundExit := some request } }

/-- The node is one of those asked for; without any it is every node. -/
def covers (nodeIDs : List String) (nodeID : String) : Bool :=
  nodeIDs = [] || nodeIDs.contains nodeID

/-- Every run of the nodes has ended, and every current pod is one of theirs. -/
def completeNodes (ledger : Ledger) (operationID requestHash : String)
    (nodeIDs currentPodUIDs : List String) : Bool :=
  let runs := ledger.runs.values.filter fun run => covers nodeIDs run.identity.nodeID
  operationID ≠ "" && requestHash ≠ "" && ledger.runs.values ≠ [] &&
    nodeIDs.all (ledger.closedFor operationID requestHash) &&
    (nodeIDs ≠ [] || ledger.closedBy = operationID && ledger.closedHash = requestHash) &&
    runs.all Run.finished &&
    (nodeIDs.all fun nodeID => runs.any fun run => run.identity.nodeID = nodeID) &&
    currentPodUIDs.all fun podUID => runs.any fun run => run.identity.podUID = podUID

end Ledger

/-- A change that is asked for. -/
inductive Call where
  | register (identity : Identity)
  | bind (identity : Identity)
  | closeNodes (operationID requestHash : String) (nodeIDs : List String)
  | close (operationID requestHash : String)
  | recordDrain (receipt : DrainReceipt)
  | recordExit (request : StopRequest)
  | recordNeverBoundExit (request : StopRequest)

def Call.apply (ledger : Ledger) : Call → Checked Ledger
  | .register identity => ledger.register identity
  | .bind identity => ledger.bind identity
  | .closeNodes operationID requestHash nodeIDs => ledger.closeNodes operationID requestHash nodeIDs
  | .close operationID requestHash => ledger.close operationID requestHash
  | .recordDrain receipt => ledger.recordDrain receipt
  | .recordExit request => ledger.recordExit request
  | .recordNeverBoundExit request => ledger.recordNeverBoundExit request

namespace Ledger

/-- The persisted ledger after a call; one that fails is not persisted. -/
def change (ledger : Ledger) (call : Call) : Ledger :=
  (call.apply ledger).toOption.getD ledger

def after (ledger : Ledger) (calls : List Call) : Ledger := calls.foldl change ledger

/-- The calls that returned nil. -/
def accepted (ledger : Ledger) : List Call → List Call
  | [] => []
  | call :: rest =>
    if (call.apply ledger).isOk then call :: accepted (ledger.change call) rest
    else accepted (ledger.change call) rest

end Ledger

end Rhiza.Fencing
