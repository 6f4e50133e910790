import Rhiza.QuePaxa.Core
import Rhiza.Foundations.Check

/-! # Leader schedules, slot allocation and certificates

Slots are grouped into epochs of sixteen. The first epochs of a configuration
rotate through its members; later ones follow the schedule decided in the control
slot of the epoch before. The allocator hands every slot out as fresh at most once:
a released slot comes back marked as reused.

A replica checks the quorum evidence of a decision before it installs the decision or
replays it from the log.
-/

namespace Rhiza.QuePaxa

open Foundations

def leaderEpoch (slot : ℕ) : ℕ := if slot = 0 then 0 else (slot - 1) / leaderEpochSize

def leaderEpochFirst (epoch : ℕ) : ℕ := epoch * leaderEpochSize + 1

/-- The control slot of an epoch lies in the epoch before. -/
theorem leaderEpochFirst_lt {slot : ℕ} (hepoch : 0 < leaderEpoch slot) :
    leaderEpochFirst (leaderEpoch slot - 1) < slot := by
  by_cases hzero : slot = 0
  · simp [leaderEpoch, hzero] at hepoch
  · simp only [leaderEpoch, if_neg hzero, leaderEpochFirst, leaderEpochSize] at hepoch ⊢
    omega

namespace Core

variable (codec : Codec) (core : Core)

def explorationEpochs : ℕ := 2 * core.config.members.length + 1

def isLeaderScheduleSlot (slot : ℕ) : Bool :=
  if core.reconfigEnabled then
    let start := core.configEpochStart slot
    let epoch := (slot - start) / leaderEpochSize
    2 * (core.clusterForSlot slot).members.length + 1 ≤ epoch + 1 ∧
      slot = start + epoch * leaderEpochSize
  else
    let epoch := leaderEpoch slot
    core.explorationEpochs ≤ epoch + 1 ∧ slot = leaderEpochFirst epoch

def leaderEpochKey (slot : ℕ) : ℕ :=
  if core.reconfigEnabled then
    let start := core.configEpochStart slot
    start + (slot - start) / leaderEpochSize * leaderEpochSize
  else leaderEpoch slot

/-- The schedule a decided control slot carries. -/
def scheduleOf (cluster : Cluster) (err : String) (decided : DecidedValue) :
    Except String (List NodeID) :=
  match codec.decodeLeaderSchedule decided.value with
  | .ok (some order) => if validateLeaderSchedule cluster order then .ok order else .error err
  | _ => .error err

/-- The schedule of an epoch whose control slot is not retained. -/
def baseSchedule (cluster : Cluster) (controlSlot slot : ℕ) : Except String (List NodeID) :=
  let key := core.leaderEpochKey slot
  if core.reconfigEnabled then
    if controlSlot ≤ core.floor ∧ key = core.baseLeaderEpoch ∧
        validateLeaderSchedule cluster core.baseLeaderOrder then .ok core.baseLeaderOrder
    else if controlSlot ≤ core.floor ∧ key = core.baseFollowingEpoch ∧
        validateLeaderSchedule cluster core.baseFollowingOrder then .ok core.baseFollowingOrder
    else .error "leader schedule unavailable for generation epoch"
  else if key = core.baseLeaderEpoch ∧ core.baseLeaderOrder ≠ [] then .ok core.baseLeaderOrder
  else if key = core.baseFollowingEpoch ∧ core.baseFollowingOrder ≠ [] then
    .ok core.baseFollowingOrder
  else .error "leader schedule unavailable for epoch"

def leaderOrder (slot : ℕ) : Except String (List NodeID) :=
  if core.reconfigEnabled then
    let cluster := core.clusterForSlot slot
    let start := core.configEpochStart slot
    let epoch := (slot - start) / leaderEpochSize
    if epoch < 2 * cluster.members.length + 1 then
      .ok (rotateMembers cluster.members (epoch % cluster.members.length))
    else
      let controlSlot := start + (epoch - 1) * leaderEpochSize
      match core.decided.lookup controlSlot with
      | some decided => scheduleOf codec cluster "invalid generation leader schedule" decided
      | none => core.baseSchedule cluster controlSlot slot
  else
    let epoch := leaderEpoch slot
    if epoch < core.explorationEpochs then
      .ok (rotateMembers core.config.members (epoch % core.config.members.length))
    else
      let controlSlot := leaderEpochFirst (epoch - 1)
      match core.decided.lookup controlSlot with
      | some decided => scheduleOf codec core.config "invalid leader schedule for epoch" decided
      | none => core.baseSchedule core.config controlSlot slot

/-- The epoch of the slot after a checkpoint, the start of its configuration, and
the number of exploration epochs there. -/
def checkpointEpoch (index : ℕ) : ℕ × ℕ × ℕ :=
  let start := if core.reconfigEnabled then core.configEpochStart (index + 1) else 1
  let cluster := if core.reconfigEnabled then core.clusterForSlot (index + 1) else core.config
  ((index + 1 - start) / leaderEpochSize, start, 2 * cluster.members.length + 1)

def validateCheckpointLeaderOrders (index : ℕ) (next following : List NodeID) : Bool :=
  let cluster := core.clusterForSlot (index + 1)
  let (epoch, start, exploration) := core.checkpointEpoch index
  validateLeaderSchedule cluster next &&
    if exploration ≤ epoch + 1 ∧ start + epoch * leaderEpochSize ≤ index then
      validateLeaderSchedule cluster following
    else following = []

def checkpointLeaderOrders (index : ℕ) : Except String (List NodeID × List NodeID) :=
  match core.leaderOrder codec (index + 1) with
  | .error err => .error err
  | .ok next =>
    let (epoch, start, exploration) := core.checkpointEpoch index
    if epoch + 1 < exploration ∨ index < start + epoch * leaderEpochSize then .ok (next, [])
    else
      match core.leaderOrder codec (start + (epoch + 1) * leaderEpochSize) with
      | .error err => .error err
      | .ok following => .ok (next, following)

/-- The vacant slots that are still worth reusing: above the floor and undecided. -/
def usableVacant : List ℕ :=
  core.vacant.dropWhile fun slot =>
    decide (slot ≤ core.floor) || (core.decided.lookup slot).isSome

/-- A slot to propose at, and whether it was handed out before. -/
def reserveSlot : Core × ℕ × Bool :=
  match core.usableVacant with
  | slot :: rest => ({ core with vacant := rest }, slot, true)
  | [] =>
    let slot := max core.nextSlot (max (core.tip + 1) (core.floor + 1))
    ({ core with vacant := [], nextSlot := slot + 1 }, slot, false)

/-- An undecided slot goes back to the vacant ones, kept sorted and without
duplicates. -/
def releaseSlot (slot : ℕ) : Core :=
  if slot = 0 ∨ slot ≤ core.floor ∨ (core.decided.lookup slot).isSome ∨ slot ∈ core.vacant then core
  else { core with
    vacant := core.vacant.takeWhile (· < slot) ++ slot :: core.vacant.dropWhile (· < slot) }

/-- Every voter of a freeze promised it, by the freeze's own hash or by the
identity of the change it falls into. -/
def validateFreezeBinding (decision : Decision) : Checked Unit := do
  match ← codec.decodeReconfiguration decision.proposal.value with
  | none => .ok ()
  | some control =>
    if control.terminal then .ok ()
    else
      requireAll (fun summary =>
        require (summary.reconfigurationID = decision.proposal.hash ∨
          ∃ state ∈ core.reconfiguration, state.freeze < decision.slot ∧
            decision.slot < state.terminal ∧ summary.reconfigurationID = state.id)
          "freeze quorum lacks reconfiguration capability") decision.summaries

/-- A schedule value is only valid in a control slot, and lists every member once. -/
def validateScheduleValue (decision : Decision) : Checked Unit := do
  match ← codec.decodeLeaderSchedule decision.proposal.value with
  | none => .ok ()
  | some order =>
    require (core.isLeaderScheduleSlot decision.slot ∧
      validateLeaderSchedule
        (if core.reconfigEnabled then core.clusterForSlot decision.slot else core.config) order)
      "invalid QuePaxa leader schedule"

/-- The summaries come from distinct members, all at the decision's step, and are
a quorum. -/
def validateSummaries (decision : Decision) : Checked Unit := do
  let cluster := core.clusterForSlot decision.slot
  require (decision.configID = 0 ∨ decision.configID = cluster.configID)
    "decision config ID does not match slot"
  requireAll (fun summary => require (summary.recorderID ∈ cluster.memberIDs)
    "decision contains non-member recorder") decision.summaries
  require (decision.summaries.map Summary.recorderID).Nodup
    "decision contains duplicate recorder"
  requireAll (fun summary => require (summary.step = decision.step)
    "decision mixes QuePaxa steps") decision.summaries
  require (cluster.quorumSize ≤ decision.summaries.length) "QuePaxa quorum unavailable"

/-- Controls need reconfiguration, a contiguous freeze needs its promises, and a
terminal is bound to its freeze when that one is known. -/
def validateControl (decision : Decision) : Checked Unit := do
  match ← codec.decodeReconfiguration decision.proposal.value with
  | none => .ok ()
  | some control =>
    require core.reconfigEnabled "reconfiguration control is disabled"
    if control.terminal then
      match core.decided.lookup control.freeze with
      | none => .ok ()
      | some freeze =>
        requireAll (fun summary => require (summary.reconfigurationID = freeze.hash)
          "terminal quorum does not bind its freeze") decision.summaries
    else if decision.slot = core.tip + 1 then core.validateFreezeBinding codec decision
    else .ok ()

/-- The proposer a fast decision must name, when the schedule is known. The schedule
may be unknown only during recovery, and only for want of its control slot. -/
def fastLeader (decision : Decision) (allowMissingLeader : Bool) :
    Checked (Option NodeID) :=
  match core.leaderOrder codec decision.slot with
  | .ok order => .ok order.head?
  | .error err =>
    let (epoch, start, exploration) := core.checkpointEpoch (decision.slot - 1)
    let controlSlot := start + (epoch - 1) * leaderEpochSize
    if allowMissingLeader ∧ exploration ≤ epoch ∧ core.decided.lookup controlSlot = none then
      .ok none
    else .error err

/-- The evidence is that of the fast path at step four or of the third phase. -/
def validateEvidence (decision : Decision) (allowMissingLeader : Bool) : Checked Unit :=
  match decision.step % 4 with
  | 0 => do
    let leader ← core.fastLeader codec decision allowMissingLeader
    require (decision.step = 4 ∧ (∀ id ∈ leader, decision.proposal.proposerID = id) ∧
      decision.proposal.priority = highestPriority) "invalid QuePaxa fast-path decision"
    requireAll (fun summary => require
      ((∃ first ∈ summary.firstCurrent, first.priority = highestPriority) ∧
        sameProposal summary.firstCurrent (some decision.proposal))
      "invalid QuePaxa fast-path quorum") decision.summaries
  | 2 => require (sameProposal (maxPrior decision.summaries) (some decision.proposal))
      "invalid QuePaxa phase-2 decision"
  | _ => .error "QuePaxa cannot decide in this phase"

def validateDecisionForRecovery (decision : Decision) (allowMissingLeader : Bool) :
    Checked Unit := do
  codec.checkValue decision.proposal.value
  require (decision.slot ≠ 0 ∧ codec.sha256 decision.proposal.value = decision.proposal.hash)
    "invalid QuePaxa decision value"
  core.validateScheduleValue codec decision
  let _ ← decodeReadBarrier decision.proposal.value
  core.validateSummaries decision
  core.validateControl codec decision
  core.validateEvidence codec decision allowMissingLeader

/-- Evidence at or below the floor may lack its schedule. -/
def validateDecisionAtFloor (decision : Decision) : Checked Unit :=
  core.validateDecisionForRecovery codec decision (decision.slot ≤ core.floor)

/-- The decision of a stored value, bound to the configuration of its slot. -/
def certifiedDecision (value : DecidedValue) : Checked Decision := do
  let cluster := if core.reconfigEnabled then core.clusterForSlot value.slot else core.config
  let decision := value.decision
  require (value.certificate.configID = cluster.configID ∧ decision.slot = value.slot ∧
    decision.proposal.hash = value.hash ∧ codec.sha256 value.value = value.hash)
    "catch-up value does not match QuePaxa certificate"
  .ok { decision with configID := value.certificate.configID }

end Core

end Rhiza.QuePaxa
