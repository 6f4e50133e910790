import Rhiza.QuePaxa.Recovery

/-! # Checkpoint seals

The checks of a checkpoint seal against the local history and the prepared fence. A
vote passes two of them: one outside the lock, which wants the root prepared, and one
under the lock, where the receipt is appended, which repeats the identity and the
fence. A replica that has fallen behind can instead restore a sealed checkpoint of
another one as its recovery base.
-/

namespace Rhiza.QuePaxa

open Foundations

namespace Core

variable (codec : Codec) (core : Core)

/-- The seal is not below the newest prepared checkpoint, and does not give its index
another root. -/
def checkCheckpointFence (checkpoint : CheckpointSeal) : Checked Unit :=
  match core.latestPreparedCheckpoint with
  | none => .ok ()
  | some (index, root) => do
    require (index ≤ checkpoint.index) "checkpoint index is below prepared fence"
    require (checkpoint.index = index → root = checkpoint.rootHash)
      "checkpoint index is already prepared with another root"

/-- The membership a seal carries must be the one of the local history. -/
def checkSealMembership (checkpoint : CheckpointSeal) : Checked Unit :=
  if core.reconfigEnabled then
    match core.membershipHistory codec checkpoint.index with
    | .error _ => .error "checkpoint membership is not stable during reconfiguration"
    | .ok expected =>
      require (checkpoint.membership = some expected) "checkpoint seal has stale membership history"
  else .ok ()

/-- No membership change is under way, and a fixed membership carries no history. -/
def checkSealStable (checkpoint : CheckpointSeal) : Checked Unit :=
  if core.reconfigEnabled then
    require (core.reconfiguration = none)
      "checkpoint membership is not stable during reconfiguration"
  else require (checkpoint.membership = none)
    "fixed-membership checkpoint includes membership history"

/-- `checkCheckpointIdentityLocked`. -/
def checkCheckpointIdentity (checkpoint : CheckpointSeal) : Checked Unit := do
  core.checkSealStable checkpoint
  require (core.sealMatches codec checkpoint)
    "checkpoint seal does not match local certified prefix"
  core.checkSealMembership codec checkpoint
  core.checkpointMembershipForSeal codec checkpoint

/-- The checks outside the lock; the answer is whether the root is prepared. -/
def checkpointIdentity (checkpoint : CheckpointSeal) : Checked Bool := do
  require (core.reconfigEnabled = true → core.reconfiguration = none ∧
    (core.membershipHistory codec checkpoint.index).toOption.isSome)
    "checkpoint seal does not match local certified prefix"
  require (core.sealMatches codec checkpoint)
    "checkpoint seal does not match local certified prefix"
  core.checkSealMembership codec checkpoint
  core.checkpointMembershipForSeal codec checkpoint
  core.checkCheckpointFence checkpoint
  .ok (core.latestPreparedCheckpoint.any (·.1 = checkpoint.index))

def requirePreparedCheckpoint (checkpoint : CheckpointSeal) : Checked Unit := do
  let verified ← core.checkpointIdentity codec checkpoint
  require (verified = true) "checkpoint root is not prepared"

/-- The seal that the bytes of a hash are, as far as they are in memory. -/
def offeredSeal (hash : ValueHash) : Checked (Option CheckpointSeal) :=
  match core.values.lookup hash with
  | none => .ok none
  | some value => codec.decodeCheckpointSeal value

/-- The check of an offer outside the lock. Bytes that are not in memory yet count as
no checkpoint. -/
def validateCheckpointValue (hash : ValueHash) : Checked Unit := do
  match ← core.offeredSeal codec hash with
  | none => .ok ()
  | some checkpoint => core.requirePreparedCheckpoint codec checkpoint

/-- The check of an offer under the lock. -/
def checkCheckpointRecordEligibility (hash : ValueHash) : Checked Unit := do
  require ((core.values.lookup hash).isSome) "proposal value is unavailable"
  match ← core.offeredSeal codec hash with
  | none => .ok ()
  | some checkpoint => do
    core.checkCheckpointIdentity codec checkpoint
    core.checkCheckpointFence checkpoint
    require (∀ index ∈ core.pendingPrepares.keys, index < checkpoint.index)
      "checkpoint record is below an unresolved prepared candidate"

/-- A proposal of an undecided register does not seal an older checkpoint, or another
one at the same index. -/
def registerProposalYields (checkpoint : CheckpointSeal) (identity : ValueHash)
    (proposal : Proposal) : Checked Unit :=
  match core.values.lookup proposal.hash with
  | none => .error "recorder proposal identity is unavailable"
  | some value =>
    match codec.decodeCheckpointSeal value with
    | .error _ => .error "recorder checkpoint identity is invalid"
    | .ok none => .ok ()
    | .ok (some other) =>
      require (checkpoint.index ≤ other.index ∧
        (other.index = checkpoint.index → proposal.hash = identity))
        "an older checkpoint seal remains in an undecided recorder"

/-- An undurable decision does not seal another checkpoint at the same index. -/
def undurableDecisionYields (checkpoint : CheckpointSeal) (identity : ValueHash)
    (decided : DecidedValue) : Checked Unit :=
  match codec.decodeCheckpointSeal decided.value with
  | .error _ => .error "certified checkpoint identity is invalid"
  | .ok none => .ok ()
  | .ok (some other) => require (other.index = checkpoint.index → decided.hash = identity)
      "a conflicting certified checkpoint exists at the candidate cut"

/-- The refusals of `pendingCheckpointSealLocked`. -/
def pendingCheckpointSeal (checkpoint : CheckpointSeal) (identity : ValueHash) :
    Checked Unit := do
  requireAll (core.registerProposalYields codec checkpoint identity)
    ((core.recorders.entries.filter fun entry => (core.decided.lookup entry.1).isNone).flatMap
      fun entry => entry.2.proposals)
  requireAll (undurableDecisionYields codec checkpoint identity)
    ((core.decided.entries.filter fun entry => entry.1 ∉ core.durable).map Sigma.snd)

/-- The checks of `PrepareCheckpoint` under the lock. A root that is already prepared
needs no second marker. -/
def checkPrepare (checkpoint : CheckpointSeal) (payload : Bytes) : Checked Unit := do
  require (core.latestPreparedCheckpoint ≠ some (checkpoint.index, checkpoint.rootHash))
    "checkpoint root is prepared"
  core.checkCheckpointIdentity codec checkpoint
  core.checkCheckpointFence checkpoint
  core.pendingCheckpointSeal codec checkpoint (codec.sha256 payload)

/-- The core whose membership the certificate of a sealed checkpoint is checked under. -/
def sealVerifier (checkpoint : CheckpointSeal) : Checked Core :=
  if core.reconfigEnabled then
    match checkpoint.membership with
    | none => .error "reconfiguration checkpoint lacks membership history"
    | some membership => validateMembershipHistory codec core.config membership
  else .ok core

/-- `ValidateCheckpointBase`. `approval` is the answer of the checkpoint validator, if
one is installed. -/
def validateCheckpointBase (checkpoint : CheckpointSeal) (certified : DecidedValue)
    (approval : Option Bool) : Checked Unit := do
  require (checkpoint.index ≠ 0 ∧ checkpoint.rootHash ≠ 0 ∧ checkpoint.prefixHash ≠ 0)
    "invalid checkpoint recovery base"
  core.checkpointMembershipForSeal codec checkpoint
  let verifier ← core.sealVerifier codec checkpoint
  require ((core.reconfigEnabled = true ∨ checkpoint.configID = core.config.configID) ∧
    verifier.validateCheckpointLeaderOrders checkpoint.index checkpoint.nextLeaderOrder
      checkpoint.followingLeaderOrder = true) "invalid checkpoint recovery base"
  require (codec.decodeCheckpointSeal certified.value = .ok (some checkpoint))
    "checkpoint recovery decision does not match its seal"
  let decision ← verifier.certifiedDecision codec certified
  verifier.validateDecisionForRecovery codec decision true
  require (approval ≠ none) "checkpoint validation is unavailable"
  require (approval = some true) "checkpoint validation failed"
  require (core.floor ≤ checkpoint.index) "checkpoint recovery base regressed behind local floor"
  require (checkpoint.index ≤ core.tip →
    core.prefixes.lookup checkpoint.index = some checkpoint.prefixHash)
    "local certified prefix does not match checkpoint recovery base"
  require (core.floor = checkpoint.index → core.floorRoot = checkpoint.rootHash)
    "local recovery root does not match checkpoint recovery base"
  require (checkpoint.generationAnchorHash = core.generationAnchorHash)
    "checkpoint generation anchor does not match local lineage"

/-- The recovery base of a sealed checkpoint. -/
def sealBase (checkpoint : CheckpointSeal) (verifier : Core) : ConsensusBase where
  configID := checkpoint.configID
  closedThrough := checkpoint.index
  prefixHash := checkpoint.prefixHash
  recoveryRoot := checkpoint.rootHash
  leaderEpoch := verifier.leaderEpochKey (checkpoint.index + 1)
  nextLeaderOrder := checkpoint.nextLeaderOrder
  followingLeaderOrder := checkpoint.followingLeaderOrder
  membership := checkpoint.membership
  generationAnchorHash := checkpoint.generationAnchorHash

/-- The locked section of `RestoreCheckpointBase`: the log is rewritten at once, and
the restored root counts as prepared. -/
def restoreCheckpointBase (checkpoint : CheckpointSeal) : Checked Core := do
  require (core.tip < checkpoint.index)
    "checkpoint recovery base no longer advances the certified tip"
  let base := sealBase checkpoint (← core.sealVerifier codec checkpoint)
  let retained ← core.liveProposalValuesAbove codec checkpoint.index
  let verified ← core.rebuildSuffix codec base
  let wal := core.wal.commitCompaction
    ⟨base, retained, core.wal.entries.length, core.membershipVersion, false⟩
  let restored := (installVerifiedBase { core with wal } base verified).pruneSlotAllocator
  .ok { restored with
    preparedCheckpoints :=
      restored.preparedCheckpoints.insert checkpoint.index checkpoint.rootHash }

end Core

end Rhiza.QuePaxa
