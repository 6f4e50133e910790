import Rhiza.QuePaxa.Compaction

/-! # Checkpoint preparation and recovery

A prepared checkpoint leaves a marker in the log together with the decision markers
of its whole prefix. Recovery replays the log from an empty replica: values and
registers in log order, decisions with their certificates checked again, and then
the certified prefix in slot order.
-/

namespace Rhiza.QuePaxa

open Foundations

/-- The decision of a marker, with the configuration of its certificate. -/
def DecidedValue.certified (value : DecidedValue) : Decision :=
  { value.decision with configID := value.certificate.configID }

namespace Core

variable (codec : Codec) (core : Core)

/-- The undurable decisions among the listed slots, with their hashes. -/
def undurable (slots : List ℕ) : List (ℕ × ValueHash) :=
  slots.filterMap fun slot =>
    if slot ∈ core.durable then none
    else (core.decided.lookup slot).map fun decided => (slot, decided.hash)

/-- The slots of undurable decisions that seal the candidate or an older checkpoint. -/
def undurableSeals (checkpoint : CheckpointSeal) (identity : ValueHash) : List ℕ :=
  (core.decided.entries.filter fun entry =>
    decide (entry.1 ∉ core.durable) &&
      match codec.decodeCheckpointSeal entry.2.value with
      | .ok (some other) => other.index < checkpoint.index ∨
          other.index = checkpoint.index ∧ entry.2.hash = identity
      | _ => false).map Sigma.fst

/-- The appending section of `PrepareCheckpoint`. `payload` is the encoded seal, and
`eligible` the outcome of its checks against the local history. -/
def prepareAppend (checkpoint : CheckpointSeal) (payload : Bytes) (eligible : Bool) :
    Checked (Core × PendingCheckpointPrepare) := do
  require (codec.decodeCheckpointSeal payload = .ok (some checkpoint))
    "invalid checkpoint seal"
  require (eligible = true) "checkpoint seal does not match local certified prefix"
  require (core.pendingPrepares.keys = [])
    "another prepared candidate has unresolved marker durability"
  let identity := codec.sha256 payload
  let slots := slotRange (max core.floor core.durableThrough + 1) checkpoint.index ++
    core.undurableSeals codec checkpoint identity
  match logSlots slots core with
  | (_, .error err) => .error err
  | (next, .ok ()) =>
    let pending : PendingCheckpointPrepare :=
      { identity, root := checkpoint.rootHash, durable := core.undurable slots }
    .ok ({ next with
        wal := next.wal.append (.checkpointVerified checkpoint)
        pendingPrepares := next.pendingPrepares.insert checkpoint.index pending }, pending)

/-- The slots of a finished prepare that still hold the decisions it logged. -/
def stillDecided (durable : List (ℕ × ValueHash)) : List ℕ :=
  (durable.filter fun entry =>
    ((core.decided.lookup entry.1).map DecidedValue.hash) = some entry.2).map Prod.fst

/-- The last section of `PrepareCheckpoint`, after the sync. -/
def prepareFinish (index : ℕ) (pending : PendingCheckpointPrepare) : Checked Core := do
  require (((core.pendingPrepares.lookup index).map fun current =>
    (current.identity, current.root)) = some (pending.identity, pending.root))
    "prepared candidate identity changed before durable acknowledgement"
  let marked := core.markDecisionsDurable (core.stillDecided pending.durable)
  .ok { marked with
    preparedCheckpoints := (∅ : Table ℕ ValueHash).insert index pending.root
    pendingPrepares := marked.pendingPrepares.erase index }

/-- The membership evidence of a seal must certify the epoch after its cut. -/
def checkpointMembershipForSeal (checkpoint : CheckpointSeal) : Checked Unit :=
  if core.reconfigEnabled then
    match checkpoint.membership with
    | none => .error "reconfiguration checkpoint lacks membership history"
    | some membership => do
      let verifier ← validateMembershipHistory codec core.config membership
      require (verifier.reconfiguration = none ∧
        (verifier.clusterForSlot (checkpoint.index + 1)).configID = checkpoint.configID ∧
        verifier.validateCheckpointLeaderOrders checkpoint.index checkpoint.nextLeaderOrder
          checkpoint.followingLeaderOrder = true)
        "checkpoint membership does not certify checkpoint epoch"
      require (∀ transition ∈ membership.transitions, transition.terminal.slot < checkpoint.index)
        "checkpoint membership crosses configuration boundary"
  else require (checkpoint.membership = none)
    "fixed-membership checkpoint includes membership history"

/-- The later of two aborts. -/
def laterAbort : Option ConfigTransition → ConfigTransition → Option ConfigTransition
  | none, abort => some abort
  | some old, abort => if old.terminal.slot < abort.terminal.slot then some abort else some old

/-- The durable aborts decided after a slot and not beyond the cut. -/
def abortsBetween (after through : ℕ) : List (Checked ConfigTransition) :=
  (core.decided.entries.filter fun entry =>
    after < entry.1 ∧ entry.1 ≤ through ∧ entry.1 ∈ core.durable).filterMap fun entry =>
      match codec.decodeReconfiguration entry.2.value with
      | .ok (some control) =>
        if control.terminal ∧ control.abort then
          some (match core.decided.lookup control.freeze with
            | some freeze =>
              if control.freeze ∈ core.durable then .ok ⟨freeze, entry.2⟩
              else .error "membership history: abort freeze slot is not durable"
            | none => .error "membership history: abort freeze slot is not durable")
        else none
      | _ => none

/-- The membership prefix that existed at a checkpoint cut. -/
def checkpointMembershipAt (through : ℕ) : Checked MembershipRecord := do
  require (through ≠ 0) "checkpoint membership cut is zero"
  let record ← core.membershipHistory codec 0
  let transitions := record.transitions.takeWhile (·.terminal.slot < through)
  let lastSuccess := ((transitions.getLast?).map (·.terminal.slot)).getD 0
  let retained := record.abort.filter fun abort =>
    abort.terminal.slot ≤ through ∧ lastSuccess < abort.terminal.slot
  let aborts ← (core.abortsBetween codec lastSuccess through).mapM id
  .ok { record with transitions, abort := aborts.foldl laterAbort retained }

/-- The newest prepared checkpoint. -/
def latestPreparedCheckpoint : Option (ℕ × ValueHash) :=
  core.preparedCheckpoints.entries.foldl (fun latest entry =>
    match latest with
    | none => if 0 < entry.1 then some (entry.1, entry.2) else none
    | some old => if old.1 < entry.1 then some (entry.1, entry.2) else some old) none

/-- A recovered marker is checked against the history at its own cut. -/
def validateRecoveredMembership (checkpoint : CheckpointSeal) : Checked Unit :=
  if core.reconfigEnabled then do
    let expected ← core.checkpointMembershipAt codec checkpoint.index
    require (checkpoint.membership = some expected)
      "checkpoint marker membership differs from recovered historical cut"
  else .ok ()

/-- The seal names the local certified prefix at its index, and what follows from it. -/
def sealMatches (checkpoint : CheckpointSeal) : Prop :=
  checkpoint.generationAnchorHash = core.generationAnchorHash ∧
    checkpoint.configID = (core.clusterForSlot (checkpoint.index + 1)).configID ∧
    core.prefixes.lookup checkpoint.index = some checkpoint.prefixHash ∧
    checkpoint.index ≤ core.tip ∧
    core.checkpointLeaderOrders codec checkpoint.index =
      .ok (checkpoint.nextLeaderOrder, checkpoint.followingLeaderOrder)

instance (checkpoint : CheckpointSeal) : Decidable (core.sealMatches codec checkpoint) :=
  inferInstanceAs (Decidable (_ ∧ _))

def validateRecoveredPreparedCheckpoint (checkpoint : CheckpointSeal) : Checked Unit := do
  core.validateRecoveredMembership codec checkpoint
  require (core.sealMatches codec checkpoint)
    "checkpoint marker does not match recovered historical cut"
  core.checkpointMembershipForSeal codec checkpoint
  require (∀ prepared ∈ core.latestPreparedCheckpoint, prepared.1 ≤ checkpoint.index ∧
    (checkpoint.index = prepared.1 → prepared.2 = checkpoint.rootHash))
    "checkpoint is below prepared fence"

/-- The base at the head of a compacted log. -/
def recoverBase (base : ConsensusBase) : Checked Core := do
  require (base.closedThrough ≠ 0 ∧ base.prefixHash ≠ 0 ∧ base.recoveryRoot ≠ 0 ∧
    base.nextLeaderOrder ≠ []) "invalid consensus base"
  let anchored ← core.installGenerationAnchorBase base.generationAnchorHash
  let based ← anchored.installMembershipBase codec base
  require (base.configID = (based.clusterForSlot (base.closedThrough + 1)).configID ∧
    base.leaderEpoch = based.leaderEpochKey (base.closedThrough + 1) ∧
    based.validateCheckpointLeaderOrders base.closedThrough base.nextLeaderOrder
      base.followingLeaderOrder = true) "consensus base identity mismatch"
  .ok (based.installBase base)

def recoverProposal (hash : ValueHash) (value : Bytes) : Checked Core := do
  codec.checkValue value
  require (value ≠ [] ∧ codec.sha256 value = hash) "recover QuePaxa value identity mismatch"
  .ok { core with
    values := core.values.insert hash value
    valueDurable := insert hash core.valueDurable }

/-- The last receipt of an undecided slot wins. Only inline values are checked: a register
holds references, whose value is empty. -/
def recoverReceipt (slot : ℕ) (state : ISR) (reconfiguration : Bool) : Checked Core := do
  requireAll (fun proposal => codec.checkValue proposal.value)
    (state.proposals.filter fun proposal => proposal.value ≠ [])
  require (reconfiguration = true → core.reconfigEnabled = true)
    "recover QuePaxa ISR: WAL requires reconfiguration protocol"
  if slot = 0 ∨ (core.decided.lookup slot).isSome then .ok core
  else .ok { core with recorders := core.recorders.insert slot state }

/-- Fixed membership validates a decision as it is read. -/
def recoverEvidence (decision : Decision) : Checked Unit :=
  if core.reconfigEnabled then .ok () else core.validateDecisionForRecovery codec decision true

def recoverDecision (value : DecidedValue) : Checked Core := do
  let decision := value.certified
  require ((core.reconfigEnabled = true ∨ value.certificate.configID = core.config.configID) ∧
    codec.sha256 value.value = decision.proposal.hash)
    "recover QuePaxa decision identity mismatch"
  core.recoverEvidence codec decision
  require (∀ existing ∈ core.decided.lookup decision.slot, existing.hash = decision.proposal.hash)
    "conflicting decisions at slot"
  let installed := core.installDecision codec decision value.certificate
  .ok { installed with
    valueDurable := insert decision.proposal.hash installed.valueDurable
    durable := insert decision.slot installed.durable
    logged := insert decision.slot installed.logged }

/-- One entry of the scan; the markers of prepared checkpoints are collected. -/
def recoverEntry (state : Core × List CheckpointSeal) :
    Entry → Checked (Core × List CheckpointSeal)
  | .checkpoint base => do
    let core ← state.1.recoverBase codec base
    .ok (core, state.2)
  | .checkpointVerified checkpoint => do
    state.1.checkpointMembershipForSeal codec checkpoint
    .ok (state.1, state.2 ++ [checkpoint])
  | .proposal hash value => do
    let core ← state.1.recoverProposal codec hash value
    .ok (core, state.2)
  | .receipt slot _ register reconfiguration => do
    let core ← state.1.recoverReceipt codec slot register reconfiguration
    .ok (core, state.2)
  | .reconfigurationMarker => do
    require (state.1.reconfigEnabled = true)
      "recover QuePaxa ISR: WAL requires reconfiguration protocol"
    .ok state
  | .decide value => do
    let core ← state.1.recoverDecision codec value
    .ok (core, state.2)

def recoverEntries (state : Core × List CheckpointSeal) :
    List Entry → Checked (Core × List CheckpointSeal)
  | [] => .ok state
  | entry :: rest => do
    let next ← recoverEntry codec state entry
    recoverEntries next rest

/-- A recovered decision that is next in the prefix is applied. -/
def recoverNext (value : DecidedValue) : Checked Core := do
  core.validateScheduledValue codec value.certified.slot value.value
  core.validateFreezeBinding codec value.certified
  let applied ← core.applyReconfiguration codec value.certified
  .ok (applied.extendPrefix codec value.certified.proposal.hash)

/-- Replays the recovered decisions in slot order, keeping sparse ones buffered. -/
def recoverPrefix : List DecidedValue → Core → Checked Core
  | [], core => .ok core
  | value :: rest, core => do
    core.validateDecisionForRecovery codec value.certified true
    if value.certified.slot ≠ core.tip + 1 then recoverPrefix rest core
    else do
      let next ← core.recoverNext codec value
      recoverPrefix rest next

def recoverDecisions : Checked Core :=
  if core.reconfigEnabled then recoverPrefix codec (core.decidedAbove 0) core
  else do
    requireAll (fun value => core.validateDecisionForRecovery codec value.certified true)
      (core.decidedAbove 0)
    .ok (core.advanceTip codec)

def recoverPrepared : List CheckpointSeal → Core → Checked Core
  | [], core => .ok core
  | checkpoint :: rest, core => do
    core.validateRecoveredPreparedCheckpoint codec checkpoint
    require (∀ root ∈ core.preparedCheckpoints.lookup checkpoint.index, root = checkpoint.rootHash)
      "recover verified checkpoint: conflicting roots"
    recoverPrepared rest { core with
      preparedCheckpoints := core.preparedCheckpoints.insert checkpoint.index checkpoint.rootHash }

/-- Rebuilds the in-memory state from the log. -/
def recover : Checked Core := do
  let (scanned, prepared) ← recoverEntries codec (core, []) core.wal.entries
  let decisions ← scanned.recoverDecisions codec
  let restored ← recoverPrepared codec prepared decisions
  .ok { restored with
    membershipVersion :=
      if restored.reconfigEnabled then restored.configHistory.length - 1
      else restored.membershipVersion }

/-- The replica a process starts with, from its log as a crash left it. With
reconfiguration the log is marked, and the marker synced, on the first start. -/
def reopen : Checked Core := do
  let recovered ← recover codec (newCore core.toCoreOptions core.wal.crash)
  let marked := recovered.wal.entries.any fun entry =>
    match entry with
    | .reconfigurationMarker => true
    | .receipt _ _ _ reconfiguration => reconfiguration
    | _ => false
  if recovered.reconfigEnabled ∧ ¬ marked then
    .ok { recovered with wal := (recovered.wal.append .reconfigurationMarker).sync }
  else .ok recovered

end Core

end Rhiza.QuePaxa
