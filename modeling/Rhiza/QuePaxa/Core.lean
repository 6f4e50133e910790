import Mathlib.Data.Finset.Basic
import Rhiza.Foundations.Table
import Rhiza.QuePaxa.Recorder

/-! # Replica state

The in-memory state of one replica and the write-ahead log below it. The log is a
list of typed entries split at the last completed sync: a crash keeps exactly the
entries before the split. Boolean maps of the source are the sets of keys they map
to true.
-/

namespace Rhiza.QuePaxa

open Foundations

/-- The recovery floor a compacted log starts with. -/
structure ConsensusBase where
  configID : ℕ
  closedThrough : ℕ
  prefixHash : ValueHash
  recoveryRoot : ValueHash
  leaderEpoch : ℕ
  nextLeaderOrder : List NodeID
  followingLeaderOrder : List NodeID
  membership : Option MembershipRecord
  generationAnchorHash : ValueHash
deriving DecidableEq, Repr

/-- A log entry with its decoded payload. -/
inductive Entry where
  | proposal (hash : ValueHash) (value : Bytes)
  | receipt (slot : ℕ) (hash : ValueHash) (state : ISR) (reconfiguration : Bool)
  | reconfigurationMarker
  | decide (value : DecidedValue)
  | checkpoint (base : ConsensusBase)
  | checkpointVerified (marker : CheckpointSeal)
deriving DecidableEq, Repr

namespace Entry

def slot : Entry → ℕ
  | proposal _ _ => 0
  | receipt slot _ _ _ => slot
  | reconfigurationMarker => 0
  | decide value => value.slot
  | checkpoint base => base.closedThrough
  | checkpointVerified marker => marker.index

def isProposal : Entry → Bool
  | proposal _ _ => true
  | _ => false

end Entry

/-- The write-ahead log. -/
structure WAL where
  synced : List Entry
  unsynced : List Entry
deriving DecidableEq, Repr

namespace WAL

def entries (wal : WAL) : List Entry := wal.synced ++ wal.unsynced

def append (wal : WAL) (entry : Entry) : WAL :=
  { wal with unsynced := wal.unsynced ++ [entry] }

def sync (wal : WAL) : WAL := ⟨wal.entries, []⟩

/-- A crash loses what no completed sync covers, and all that a restart reads is synced. An entry
that outlives a killed process unsynced, for a power failure to lose later, is not modelled. -/
def crash (wal : WAL) : WAL := ⟨wal.synced, []⟩

@[simp] theorem entries_append (wal : WAL) (entry : Entry) :
    (wal.append entry).entries = wal.entries ++ [entry] := by
  simp [entries, append]

@[simp] theorem synced_append (wal : WAL) (entry : Entry) :
    (wal.append entry).synced = wal.synced := rfl

@[simp] theorem entries_sync (wal : WAL) : wal.sync.entries = wal.entries := by
  simp [entries, sync]

@[simp] theorem synced_sync (wal : WAL) : wal.sync.synced = wal.entries := rfl

@[simp] theorem entries_crash (wal : WAL) : wal.crash.entries = wal.synced := by
  simp [entries, crash]

@[simp] theorem synced_crash (wal : WAL) : wal.crash.synced = wal.synced := rfl

theorem synced_subset (wal : WAL) : wal.synced ⊆ wal.entries :=
  List.subset_append_left wal.synced wal.unsynced

end WAL

structure ConfigEpoch where
  start : ℕ
  cluster : Cluster
deriving DecidableEq, Repr

/-- A membership change between its certified freeze and its terminal. -/
structure ReconfigurationState where
  freeze : ℕ
  terminal : ℕ
  id : ValueHash
  freezePrefix : ValueHash
  target : Cluster
  safe : Finset NodeID
deriving DecidableEq

structure PendingCheckpointPrepare where
  identity : ValueHash
  root : ValueHash
  durable : List (ℕ × ValueHash)
deriving DecidableEq, Repr

structure SealedCheckpoint where
  checkpointSeal : CheckpointSeal
  decisionSlot : ℕ
deriving DecidableEq, Repr

/-- What a replica is constructed with. -/
structure CoreOptions where
  nodeID : NodeID
  config : Cluster
  observer : Bool
  learner : Bool
  walIdentity : Bytes
  reconfigEnabled : Bool

/-- One proposer and recorder. -/
structure Core extends CoreOptions where
  configHistory : List ConfigEpoch
  retiredIDs : Finset NodeID
  baseMembership : Option MembershipRecord
  membershipVersion : ℕ
  lastAbort : Option ConfigTransition
  generationAnchorHash : ValueHash
  reconfiguration : Option ReconfigurationState
  nextSlot : ℕ
  vacant : List ℕ
  tip : ℕ
  floor : ℕ
  floorRoot : ValueHash
  baseLeaderEpoch : ℕ
  baseLeaderOrder : List NodeID
  baseFollowingEpoch : ℕ
  baseFollowingOrder : List NodeID
  decided : Table ℕ DecidedValue
  durable : Finset ℕ
  durableThrough : ℕ
  logged : Finset ℕ
  values : Table ValueHash Bytes
  valueDurable : Finset ValueHash
  compactionValues : Option (Finset ValueHash)
  prefixes : Table ℕ ValueHash
  preparedCheckpoints : Table ℕ ValueHash
  pendingPrepares : Table ℕ PendingCheckpointPrepare
  sealedRoots : Table ValueHash SealedCheckpoint
  recorders : Table ℕ ISR
  wal : WAL

/-- A replica as constructed, before its log is replayed. -/
def newCore (options : CoreOptions) (wal : WAL) : Core where
  toCoreOptions := options
  configHistory := [⟨1, options.config⟩]
  retiredIDs := ∅
  baseMembership := none
  membershipVersion := 0
  lastAbort := none
  generationAnchorHash := 0
  reconfiguration := none
  nextSlot := 1
  vacant := []
  tip := 0
  floor := 0
  floorRoot := 0
  baseLeaderEpoch := 0
  baseLeaderOrder := []
  baseFollowingEpoch := 0
  baseFollowingOrder := []
  decided := ∅
  durable := ∅
  durableThrough := 0
  logged := ∅
  values := ∅
  valueDurable := ∅
  compactionValues := none
  prefixes := ∅
  preparedCheckpoints := ∅
  pendingPrepares := ∅
  sealedRoots := ∅
  recorders := ∅
  wal

namespace Core

variable (core : Core)

/-- The register of a slot; a slot without records has the empty one. -/
def recorder (slot : ℕ) : ISR := (core.recorders.lookup slot).getD ISR.empty

/-- The prefix hash of a slot, zero when it is not retained. -/
def prefixAt (slot : ℕ) : ValueHash := (core.prefixes.lookup slot).getD 0

/-- The last epoch of the history that starts at or before the slot; the scan stops
at the first epoch that starts later. -/
def epochForSlot (slot : ℕ) : ConfigEpoch :=
  ((core.configHistory.takeWhile (·.start ≤ slot)).getLast?).getD ⟨1, core.config⟩

def clusterForSlot (slot : ℕ) : Cluster := (core.epochForSlot slot).cluster

def configEpochStart (slot : ℕ) : ℕ := (core.epochForSlot slot).start

/-- A compacted terminal counts as durable only when the membership base retains
that exact transition. -/
def epochTerminalDurable (epoch : ConfigEpoch) : Bool :=
  decide (epoch.start - 1 ∈ core.durable) ||
    (decide (epoch.start - 1 ≤ core.floor) &&
      match core.baseMembership with
      | none => false
      | some base => base.transitions.any (·.terminal.slot = epoch.start - 1))

def voterForCluster (cluster : Cluster) : Bool :=
  !core.observer &&
    !(core.configHistory.any fun epoch =>
      epoch.cluster = cluster && decide (1 < epoch.start) && !core.epochTerminalDurable epoch) &&
    match cluster.members.find? (·.id = core.nodeID) with
    | none => false
    | some member =>
      if member.walIdentity ≠ [] then member.walIdentity = core.walIdentity else !core.learner

def isVoter : Bool := !core.observer && core.voterForCluster (core.clusterForSlot (core.tip + 1))

def canParticipateReadIndex : Bool := core.isVoter && core.reconfiguration.isNone

/-- The highest slot of which anything is known. -/
def recorderTip : ℕ :=
  (core.decided.keys ++ core.recorders.keys).foldl max (max core.floor core.tip)

/-- `highestKnownSlotLocked` repeats `RecorderTip` under the caller's lock. -/
def highestKnownSlot : ℕ := core.recorderTip

end Core

end Rhiza.QuePaxa
