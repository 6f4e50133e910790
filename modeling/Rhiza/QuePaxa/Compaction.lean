import Mathlib.Data.List.Sort
import Rhiza.QuePaxa.Membership

/-! # Compaction

A compaction replaces the log below a sealed checkpoint by a recovery base. It
fences the log, rewrites the fenced prefix without blocking appends, and switches to
the rewritten prefix followed by everything appended since the fence. Proposal
entries of the fenced prefix survive only when they were enumerated at the fence.
-/

namespace Rhiza.QuePaxa

open Foundations

/-- A compaction between its fence and its end. -/
structure RunningCompaction where
  base : ConsensusBase
  retained : Table ValueHash Bytes
  /-- The number of log entries before the fence. -/
  fence : ℕ
  membershipVersion : ℕ
  committed : Bool

/-- The rewritten prefix: the base, the retained proposals, and every other entry
above the base. -/
def compactedEntries (base : ConsensusBase) (retained : Table ValueHash Bytes)
    (entries : List Entry) : List Entry :=
  .checkpoint base :: retained.entries.map (fun entry => .proposal entry.1 entry.2) ++
    entries.filter fun entry => !entry.isProposal && decide (base.closedThrough < entry.slot)

namespace WAL

/-- The log after the switch. The switch syncs the tail. -/
def commitCompaction (wal : WAL) (running : RunningCompaction) : WAL where
  synced := compactedEntries running.base running.retained (wal.entries.take running.fence) ++
    wal.entries.drop running.fence
  unsynced := []

end WAL

namespace Core

variable (codec : Codec) (core : Core)

/-- The hashes of retained decisions whose marker carries the value. -/
def loggedHashes (through : ℕ) : List ValueHash :=
  (core.decided.entries.filter fun entry => through < entry.1 ∧ entry.1 ∈ core.logged).map
    fun entry => entry.2.hash

/-- The proposals a compaction must keep: those of unlogged decisions, and those a
register refers to that no logged decision carries. -/
def liveProposals (through : ℕ) : List (ValueHash × Bytes) :=
  (core.decided.entries.filter fun entry => through < entry.1 ∧ entry.1 ∉ core.logged).map
      (fun entry => (entry.2.hash, entry.2.value)) ++
    (((core.recorders.entries.filter fun entry => through < entry.1).flatMap
      fun entry => entry.2.proposals).filter
        fun proposal => proposal.hash ∉ core.loggedHashes through).map
      fun proposal => (proposal.hash, (core.values.lookup proposal.hash).getD [])

/-- Collects proposals whose bytes are at hand. -/
def retainProposals : List (ValueHash × Bytes) → Checked (Table ValueHash Bytes)
  | [] => .ok ∅
  | (hash, value) :: rest => do
    require (value ≠ [] ∧ codec.sha256 value = hash) "retained proposal is unavailable"
    let retained ← retainProposals rest
    .ok (retained.insert hash value)

def liveProposalValuesAbove (through : ℕ) : Checked (Table ValueHash Bytes) :=
  retainProposals codec (core.liveProposals through)

/-- The hashes that decisions and registers above the floor refer to. -/
def usedHashes : List ValueHash :=
  core.decided.values.map DecidedValue.hash ++
    (core.recorders.values.flatMap ISR.proposals).map Proposal.hash

/-- Drops the values nothing refers to. -/
def dropUnusedValues : Core :=
  { core with
    values := core.values.restrict fun hash => core.usedHashes.contains hash
    valueDurable := core.valueDurable.filter fun hash =>
      core.usedHashes.contains hash ∨ core.values.lookup hash = none }

/-- Moves the floor of the in-memory state to a base. -/
def installBase (base : ConsensusBase) : Core :=
  dropUnusedValues { core with
    floor := base.closedThrough
    durableThrough := base.closedThrough
    floorRoot := base.recoveryRoot
    baseLeaderEpoch := base.leaderEpoch
    baseLeaderOrder := base.nextLeaderOrder
    baseFollowingEpoch :=
      if base.followingLeaderOrder = [] then 0
      else if core.reconfigEnabled then base.leaderEpoch + leaderEpochSize
      else base.leaderEpoch + 1
    baseFollowingOrder := base.followingLeaderOrder
    tip := base.closedThrough
    prefixes := (∅ : Table ℕ ValueHash).insert base.closedThrough base.prefixHash
    decided := core.decided.restrict (base.closedThrough < ·)
    durable := core.durable.filter (base.closedThrough < ·)
    logged := core.logged.filter (base.closedThrough < ·)
    recorders := core.recorders.restrict (base.closedThrough < ·)
    preparedCheckpoints := core.preparedCheckpoints.restrict (base.closedThrough ≤ ·)
    sealedRoots := core.sealedRoots.restrict fun root =>
      match core.sealedRoots.lookup root with
      | some sealed => base.closedThrough ≤ sealed.checkpointSeal.index
      | none => false }

/-- An externally fenced lineage never changes its anchor. -/
def installGenerationAnchorBase (anchor : ValueHash) : Checked Core :=
  if core.generationAnchorHash ≠ 0 ∧ core.generationAnchorHash ≠ anchor then
    .error "consensus base generation anchor does not match local lineage"
  else .ok { core with generationAnchorHash := anchor }

/-- Replays retained decisions, in slot order, on a verifier. -/
def verifySuffix : List DecidedValue → Core → Checked Core
  | [], verifier => .ok verifier
  | value :: rest, verifier => do
    let decision ← verifier.certifiedDecision codec value
    verifier.validateDecisionForRecovery codec decision true
    match ({ verifier with decided := verifier.decided.insert value.slot value }).advance codec with
    | (_, .error err) => .error err
    | (next, .ok ()) => verifySuffix rest next

/-- The decisions above a slot, in slot order. -/
def decidedAbove (through : ℕ) : List DecidedValue :=
  ((core.decided.keys.filter (through < ·)).insertionSort (· ≤ ·)).filterMap core.decided.lookup

/-- The export of the verifier must repeat the live one. -/
def sameMembershipAtTip (verifier : Core) : Checked Unit :=
  if core.reconfigEnabled then do
    let before ← core.membershipHistory codec core.tip
    let after ← verifier.membershipHistory codec verifier.tip
    require (before = after) "compaction suffix changed checked membership"
  else .ok ()

/-- Rebuilds the prefix from a base and the retained decisions. -/
def rebuildSuffix (base : ConsensusBase) : Checked Core := do
  let fresh := newCore
    ⟨core.nodeID, core.config, false, false, [], core.reconfigEnabled⟩ ⟨[], []⟩
  let anchored ← installGenerationAnchorBase
    { fresh with generationAnchorHash := core.generationAnchorHash } base.generationAnchorHash
  let based ← anchored.installMembershipBase codec base
  verifySuffix codec (core.decidedAbove base.closedThrough) (based.installBase base)

/-- The rebuilt prefix must be the live one. The source compares them unless the base
is beyond the live tip, which the base of a compaction never is. -/
def verifyBaseSuffix (base : ConsensusBase) : Checked Core := do
  let verifier ← core.rebuildSuffix codec base
  require (verifier.tip = core.tip ∧ verifier.prefixAt verifier.tip = core.prefixAt core.tip ∧
    verifier.reconfiguration = none) "compaction suffix changed checked prefix"
  core.sameMembershipAtTip codec verifier
  .ok verifier

/-- Takes over the verifier's membership, floor and prefix; decisions, registers and
values above the floor stay. -/
def installVerifiedBase (base : ConsensusBase) (verifier : Core) : Core :=
  { installBase { core with
      configHistory := verifier.configHistory
      retiredIDs := verifier.retiredIDs
      baseMembership := verifier.baseMembership
      lastAbort := verifier.lastAbort
      reconfiguration := verifier.reconfiguration
      membershipVersion := verifier.membershipVersion
      generationAnchorHash := verifier.generationAnchorHash } base with
    tip := verifier.tip
    prefixes := verifier.prefixes }

def pruneSlotAllocator : Core :=
  { core with
    vacant := core.vacant.filter (core.floor < ·)
    nextSlot := max core.nextSlot (max (core.tip + 1) (core.floor + 1)) }

/-- The membership a base carries: with reconfiguration, the sealed record, which must
be the live one. -/
def baseMembershipFor (checkpoint : CheckpointSeal) (through : ℕ) :
    Checked (Option MembershipRecord) :=
  if core.reconfigEnabled then do
    require (core.reconfiguration = none) "compaction cannot cross active reconfiguration"
    let membership ← core.membershipHistory codec through
    require (checkpoint.membership = some membership)
      "compaction seal has stale membership history"
    .ok checkpoint.membership
  else .ok none

/-- The locally prepared and quorum-sealed checkpoint at a slot. -/
def sealedCheckpoint (through : ℕ) (recoveryRoot : ValueHash) : Checked CheckpointSeal :=
  match core.sealedRoots.lookup recoveryRoot with
  | none => .error "recovery root is not locally verified and quorum sealed"
  | some sealed => do
    require (sealed.checkpointSeal.index = through ∧
      core.preparedCheckpoints.lookup through = some recoveryRoot)
      "recovery root is not locally verified and quorum sealed"
    .ok sealed.checkpointSeal

/-- The first section of `CompactThrough`, up to the fence. -/
def compactBegin (through : ℕ) (recoveryRoot : ValueHash) :
    Checked (Core × RunningCompaction) := do
  require (through ≠ 0 ∧ recoveryRoot ≠ 0) "invalid consensus compaction floor"
  require (core.floor < through ∧ through ≤ core.tip)
    "compaction floor is outside retained range"
  let checkpoint ← core.sealedCheckpoint through recoveryRoot
  require (core.prefixes.lookup through ≠ none) "prefix hash is unavailable"
  let (order, following) ← core.checkpointLeaderOrders codec through
  let membership ← core.baseMembershipFor codec checkpoint through
  let base : ConsensusBase :=
    { configID := checkpoint.configID
      closedThrough := through
      prefixHash := core.prefixAt through
      recoveryRoot
      leaderEpoch := core.leaderEpochKey (through + 1)
      nextLeaderOrder := order
      followingLeaderOrder := following
      membership
      generationAnchorHash := core.generationAnchorHash }
  let retained ← core.liveProposalValuesAbove codec through
  let _ ← core.verifyBaseSuffix codec base
  .ok ({ core with
      wal := core.wal.sync
      compactionValues := some (retained.keys ++ core.loggedHashes through).toFinset },
    { base, retained, fence := core.wal.entries.length
      membershipVersion := core.membershipVersion
      committed := false })

/-- The last section: the switch of the log and of the in-memory floor. -/
def compactCommit (running : RunningCompaction) : Checked Core := do
  require (core.floor < running.base.closedThrough ∧
    core.membershipVersion = running.membershipVersion ∧ core.reconfiguration = none)
    "compaction floor advanced while rewrite was running"
  let verifier ← core.verifyBaseSuffix codec running.base
  .ok (installVerifiedBase { core with wal := core.wal.commitCompaction running } running.base
    verifier).pruneSlotAllocator

def finishCompaction : Core := { core with compactionValues := none }

end Core

end Rhiza.QuePaxa
