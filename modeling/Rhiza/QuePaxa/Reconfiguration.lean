import Rhiza.QuePaxa.Certificate

/-! # The certified prefix

Decisions take effect in slot order: the tip moves over the next decided slot, the
prefix hash is extended, and a membership control is applied at the moment it
enters the prefix. Sparse decisions stay buffered until their prefix arrives.
-/

namespace Rhiza.QuePaxa

open Foundations

/-- Slots are 64-bit counters; a freeze leaves room for its terminal and one more. -/
def maxFreezeSlot : ℕ := 2 ^ 64 - 1 - 17

namespace Core

variable (codec : Codec) (core : Core)

def validateReconfigurationSlots (freeze terminal : ℕ) : Checked Unit :=
  require (freeze ≠ 0 ∧ freeze ≤ maxFreezeSlot ∧ terminal = freeze + 16 ∧
    core.isLeaderScheduleSlot freeze = false ∧ core.isLeaderScheduleSlot terminal = false)
    "incompatible reconfiguration schedule boundary"

/-- A certified freeze starts a change; its recorders are the safe set. -/
def applyFreeze (decision : Decision) (control : ReconfigurationValue) : Checked Core := do
  if ∃ state ∈ core.reconfiguration, state.freeze < decision.slot ∧
      decision.slot < state.terminal then
    -- Any certified later freeze control is a drain no-op.
    .ok core
  else
    core.validateReconfigurationSlots control.freeze control.terminalSlot
    require (core.reconfiguration = none ∧ decision.slot = control.freeze ∧
      core.tip + 1 = decision.slot ∧ core.prefixAt core.tip = control.prefixHash)
      "invalid reconfiguration freeze"
    validateReconfigurationTarget (core.clusterForSlot decision.slot) control.target
      core.retiredIDs
    .ok { core with
      reconfiguration := some
        { freeze := control.freeze
          terminal := control.terminalSlot
          id := decision.proposal.hash
          freezePrefix := control.prefixHash
          target := control.target
          safe := (decision.summaries.map Summary.recorderID).toFinset } }

/-- The abort of a pending addition keeps the configuration. -/
def applyAbort (decision : Decision) (state : ReconfigurationState) : Checked Core := do
  require (reconfigurationAdds (core.clusterForSlot decision.slot) state.target = true)
    "only a pending addition may be aborted"
  match core.decided.lookup state.freeze with
  | none => .error "abort terminal has no freeze decision"
  | some freeze =>
    .ok { core with
      lastAbort := some
        { freeze
          terminal :=
            { slot := decision.slot
              hash := decision.proposal.hash
              value := decision.proposal.value
              certificate := ((core.decided.lookup decision.slot).map DecidedValue.certificate).getD
                (encodeCertificate 0 decision) } }
      reconfiguration := none }

/-- A successful terminal activates the target right after its slot. -/
def applySuccess (decision : Decision) (state : ReconfigurationState) : Core :=
  { core with
    retiredIDs := core.retiredIDs ∪ ((core.clusterForSlot decision.slot).memberIDs.filter
      fun id => !(state.target.memberIDs.contains id)).toFinset
    configHistory := core.configHistory ++ [⟨state.terminal + 1, state.target⟩]
    lastAbort := none
    reconfiguration := none }

def applyTerminal (decision : Decision) (control : ReconfigurationValue) : Checked Core :=
  match core.reconfiguration with
  | none => .error "invalid reconfiguration terminal"
  | some state => do
    require (decision.slot = state.terminal ∧ control.freeze = state.freeze ∧
      control.terminalSlot = state.terminal ∧ control.prefixHash = core.prefixAt core.tip ∧
      control.target = state.target ∧ core.tip + 1 = decision.slot)
      "invalid reconfiguration terminal"
    requireAll (fun summary => require (summary.reconfigurationID = state.id)
      "terminal quorum does not bind its freeze") decision.summaries
    if control.abort then core.applyAbort decision state else .ok (core.applySuccess decision state)

def applyReconfiguration (decision : Decision) : Checked Core := do
  match ← codec.decodeReconfiguration decision.proposal.value with
  | none => .ok core
  | some control =>
    require core.reconfigEnabled "reconfiguration control is disabled"
    if control.terminal then core.applyTerminal decision control
    else core.applyFreeze decision control

/-- A control slot of the schedule must hold a valid schedule. -/
def validateScheduledValue (slot : ℕ) (value : Bytes) : Checked Unit :=
  if core.isLeaderScheduleSlot slot then
    match codec.decodeLeaderSchedule value with
    | .ok (some order) =>
      require (validateLeaderSchedule (core.clusterForSlot slot) order = true)
        "incompatible leader schedule history"
    | _ => .error "incompatible leader schedule history"
  else .ok ()

/-- The tip and the prefix hash move over the next slot. -/
def extendPrefix (hash : ValueHash) : Core :=
  { core with
    tip := core.tip + 1
    prefixes := core.prefixes.insert (core.tip + 1)
      (codec.advancePrefixHash (core.prefixAt core.tip) (core.tip + 1) hash) }

/-- Applies a control that is next in the prefix. -/
def applyControl (decided : DecidedValue) : Checked Core := do
  if reconfigurationMagic.isPrefixOf decided.value then
    core.validateFreezeBinding codec decided.decision
    let applied ← core.applyReconfiguration codec decided.decision
    .ok { applied with
      membershipVersion := core.membershipVersion +
        if codec.isTerminal decided.value then 1 else 0 }
  else .ok core

/-- One turn of the loop that moves the tip with reconfiguration enabled. -/
def advanceOne (decided : DecidedValue) : Checked Core := do
  core.validateScheduledValue codec (core.tip + 1) decided.value
  let applied ← core.applyControl codec decided
  .ok (applied.extendPrefix codec decided.hash)

/-- The loop stops at the first missing decision or failing control; what it applied
before a failure stays applied. -/
def advanceReconfigurationTipLoop : ℕ → Core → Core × Checked Unit
  | 0, core => (core, .ok ())
  | fuel + 1, core =>
    match core.decided.lookup (core.tip + 1) with
    | none => (core, .ok ())
    | some decided =>
      match core.advanceOne codec decided with
      | .error err => (core, .error err)
      | .ok next => advanceReconfigurationTipLoop fuel next

/-- Every turn consumes a decided slot, so their number bounds the loop. -/
def advanceReconfigurationTip : Core × Checked Unit :=
  advanceReconfigurationTipLoop codec core.decided.keys.length core

def advanceTipLoop : ℕ → Core → Core
  | 0, core => core
  | fuel + 1, core =>
    match core.decided.lookup (core.tip + 1) with
    | none => core
    | some decided => advanceTipLoop fuel (core.extendPrefix codec decided.hash)

def advanceTip : Core := advanceTipLoop codec core.decided.keys.length core

end Core

end Rhiza.QuePaxa
