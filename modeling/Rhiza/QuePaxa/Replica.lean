import Rhiza.Foundations.System
import Rhiza.QuePaxa.Recovery

/-! # One replica and its calls in flight

The calls of a replica interleave at the sections that the source runs under its
lock. A replica therefore carries, next to its core, the calls that are between two
of their sections: admitted records, checked decisions, calls that wait for a sync,
and a running compaction.
-/

namespace Rhiza.QuePaxa

open Foundations

/-- A call that has appended to the log and waits for its last section. -/
inductive Pending where
  | storeValue (hash : ValueHash)
  | record (request : RecordRequest) (summary : Summary) (completion : Completion)
  | ensureDurable (slots : List ℕ)
  | prepare (index : ℕ) (prepared : PendingCheckpointPrepare)
deriving DecidableEq, Repr

namespace Pending

/-- The call holds the lock of its slot, which excludes the compaction barrier. -/
def holdsSlot : Pending → Bool
  | storeValue _ => false
  | record _ _ _ => true
  | ensureDurable _ => true
  | prepare _ _ => false

/-- The call holds the checkpoint lock, which excludes compactions. -/
def holdsCheckpoint : Pending → Bool
  | prepare _ _ => true
  | _ => false

end Pending

structure Replica where
  core : Core
  admitted : List RecordRequest
  checked : List (Decision × ℕ)
  /-- Waiting calls, with whether a sync completed since they began to wait. -/
  pending : List (Pending × Bool)
  compaction : Option RunningCompaction

/-- The sections a replica can run next. -/
inductive Action where
  | stageValue (hash : ValueHash) (value : Bytes)
  | storeValue (hash : ValueHash) (value : Bytes)
  | admitRequest (request : RecordRequest) (admission : Option Bool)
  | stage (request : RecordRequest)
  | record (request : RecordRequest) (eligible : Bool)
  | check (decision : Decision)
  | install (decision : Decision) (configID : ℕ)
  | logDecision (slot : ℕ)
  | ensureDurable (slot : ℕ)
  | prepare (checkpoint : CheckpointSeal) (payload : Bytes) (eligible : Bool)
  | sync
  | finish (index : ℕ)
  | cancel (index : ℕ)
  | compactBegin (through : ℕ) (recoveryRoot : ValueHash)
  | compactCommit
  | compactFinish
  | crash
deriving DecidableEq, Repr

namespace Replica

variable (codec : Codec) (replica : Replica)

/-- A replica right after its log was opened. -/
def opened (core : Core) : Replica := ⟨core, [], [], [], none⟩

def wait (call : Pending) : List (Pending × Bool) := replica.pending ++ [(call, false)]

/-- Whether a waiting call may run its last section. -/
def released (core : Core) : Pending × Bool → Bool
  | (.record _ _ .ready, _) => true
  | (.record _ _ (.durable slot), _) => slot ≤ core.floor ∨ slot ∈ core.durable
  | (_, flushed) => flushed

/-- The last section of a waiting call. -/
def complete (core : Core) : Pending → Core
  | .storeValue hash => core.markValueDurable hash
  | .record _ _ (.syncValue hash _) => core.markValueDurable hash
  | .record _ _ (.syncDecision slot hash) =>
    ({ core with durable := insert slot core.durable }).markValueDurable hash
  | .record _ _ _ => core
  | .ensureDurable slots => core.markDecisionsDurable slots
  | .prepare index prepared =>
    match core.prepareFinish index prepared with
    | .ok core => core
    | .error _ => core

/-- The compaction barrier: no call holds a slot lock or is about to install. -/
def barrier : Bool := replica.checked.isEmpty && replica.pending.all (!·.1.holdsSlot)

/-- One section of a call. A section that fails without an effect is not a step. -/
def step (replica : Replica) : Action → Option Replica
  | .stageValue hash value => do
    let core ← (replica.core.stageValue codec hash value).toOption
    some { replica with core }
  | .storeValue hash value => do
    let core ← (replica.core.stageValue codec hash value).toOption
    some { replica with core, pending := replica.wait (.storeValue hash) }
  | .admitRequest request admission => do
    (replica.core.recordAdmission codec request admission).toOption
    some { replica with admitted := request :: replica.admitted }
  | .stage request =>
    if request ∈ replica.admitted then do
      let core ← (replica.core.recordStage codec request).toOption
      some { replica with core }
    else none
  | .record request eligible =>
    if request ∈ replica.admitted then do
      let (core, summary, completion) ← (replica.core.recordApply codec request eligible).toOption
      some { replica with core, pending := replica.wait (.record request summary completion) }
    else none
  | .check decision => do
    let configID ← (replica.core.acceptCheck codec decision).toOption
    some { replica with checked := (decision, configID) :: replica.checked }
  | .install decision configID =>
    if (decision, configID) ∈ replica.checked then
      some { replica with
        core := (replica.core.acceptInstall codec decision configID).1
        checked := replica.checked.erase (decision, configID) }
    else none
  | .logDecision slot => do
    let decided ← replica.core.decided.lookup slot
    some { replica with core := replica.core.logDecision decided }
  | .ensureDurable slot =>
    match replica.core.ensureDurableAppend codec slot with
    | (core, .ok (some slots)) =>
      some { replica with core, pending := replica.wait (.ensureDurable slots) }
    | (core, _) => some { replica with core }
  | .prepare checkpoint payload eligible =>
    if replica.compaction.isNone ∧ replica.pending.all (!·.1.holdsCheckpoint) then do
      let (core, prepared) ←
        (replica.core.prepareAppend codec checkpoint payload eligible).toOption
      some { replica with core, pending := replica.wait (.prepare checkpoint.index prepared) }
    else none
  | .sync =>
    some { replica with
      core := { replica.core with wal := replica.core.wal.sync }
      pending := replica.pending.map fun call => (call.1, true) }
  | .finish index => do
    let call ← replica.pending[index]?
    if released replica.core call then
      some { replica with
        core := complete replica.core call.1
        pending := replica.pending.eraseIdx index }
    else none
  | .cancel index => some { replica with pending := replica.pending.eraseIdx index }
  | .compactBegin through recoveryRoot =>
    if replica.compaction.isNone ∧ replica.barrier ∧
        replica.pending.all (!·.1.holdsCheckpoint) then do
      let (core, running) ← (replica.core.compactBegin codec through recoveryRoot).toOption
      some { replica with core, compaction := some running }
    else none
  | .compactCommit => do
    let running ← replica.compaction
    if replica.barrier ∧ running.committed = false then do
      let core ← (replica.core.compactCommit codec running).toOption
      some { replica with core, compaction := some { running with committed := true } }
    else none
  | .compactFinish =>
    some { replica with core := replica.core.finishCompaction, compaction := none }
  | .crash => do
    let core ← (replica.core.reopen codec).toOption
    some (opened core)

/-- A replica after a sequence of sections. -/
def run (replica : Replica) (actions : List Action) : Option Replica :=
  runFrom (step codec) replica actions

end Replica

end Rhiza.QuePaxa
