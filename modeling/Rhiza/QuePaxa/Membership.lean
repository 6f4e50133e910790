import Rhiza.QuePaxa.Record

/-! # Membership histories

The live history a replica exports, and the offline verifier that reconstructs
configuration authority from the genesis configuration and the certificates of
every completed transition.
-/

namespace Rhiza.QuePaxa

open Foundations

/-- The control a value must carry. -/
def controlOf (codec : Codec) (value : Bytes) (err : String) :
    Checked ReconfigurationValue :=
  match codec.decodeReconfiguration value with
  | .error err => .error err
  | .ok none => .error err
  | .ok (some control) => .ok control

namespace Core

variable (codec : Codec) (core : Core)

/-- A decided slot whose marker is durable. -/
def durableDecision (slot : ℕ) : Checked DecidedValue :=
  match core.decided.lookup slot with
  | none => .error "membership history: slot not decided"
  | some decided => do
    require (slot ∈ core.durable) "membership history: slot not durable"
    .ok decided

/-- The certificates of the transition that started an epoch: its freeze lies
seventeen slots before the start and its terminal one. A nonzero `through` cuts the
history at a checkpoint. -/
def historyTransition (through : ℕ) (epoch : ConfigEpoch) : Checked ConfigTransition := do
  require (18 ≤ epoch.start) "membership history: transition starts before slot 18"
  require (through = 0 ∨ epoch.start - 1 < through)
    "checkpoint membership crosses configuration boundary"
  let freeze ← core.durableDecision (epoch.start - 17)
  let terminal ← core.durableDecision (epoch.start - 1)
  let control ← controlOf codec terminal.value
    "membership history: terminal is not a reconfiguration control"
  require (control.terminal = true ∧ control.freeze = epoch.start - 17 ∧
    control.terminalSlot = epoch.start - 1 ∧ control.target = epoch.cluster)
    "membership history: terminal does not match configHistory"
  require (codec.sha256 terminal.value = terminal.hash ∧ codec.sha256 freeze.value = freeze.hash)
    "membership history: value hash mismatch"
  .ok ⟨freeze, terminal⟩

def historyTransitions (through : ℕ) : List ConfigEpoch → Checked (List ConfigTransition)
  | [] => .ok []
  | epoch :: rest => do
    let transition ← core.historyTransition codec through epoch
    let transitions ← historyTransitions through rest
    .ok (transition :: transitions)

/-- The abort the exported record retains. -/
def historyAbort : Option ConfigTransition :=
  match core.lastAbort with
  | some abort => some abort
  | none =>
    match core.baseMembership with
    | none => none
    | some base =>
      if core.configHistory.length - 1 = base.transitions.length then base.abort else none

/-- The exported membership record; with `through = 0` it is `MembershipHistory`. -/
def membershipHistory (through : ℕ) : Checked MembershipRecord :=
  match core.configHistory with
  | [] => .error "membership history: no config history"
  | first :: _ => do
    let genesis := (core.baseMembership.map MembershipRecord.genesis).getD first.cluster
    let retained := (core.baseMembership.map MembershipRecord.transitions).getD []
    let transitions ← core.historyTransitions codec through
      (core.configHistory.drop (1 + retained.length))
    .ok { genesis, transitions := retained ++ transitions, abort := core.historyAbort }

end Core

/-- A decision of a history, bound to the configuration it must be certified by. -/
def historyDecision (codec : Codec) (configID : ℕ) (value : DecidedValue) :
    Checked Decision := do
  require (value.value ≠ [] ∧ value.value.length ≤ maxReplicatedValueBytes)
    "membership decision value length is invalid"
  let decision := value.decision
  require (value.certificate.configID = configID ∧ decision.slot = value.slot ∧
    decision.proposal.hash = value.hash ∧ codec.sha256 value.value = value.hash)
    "membership decision identity mismatch"
  .ok { decision with configID := value.certificate.configID }

/-- The verifier's progress: the verifier itself, the configuration in force, and the
terminal of the last transition. -/
structure HistoryVerifier where
  verifier : Core
  current : Cluster
  previousTerminal : ℕ

namespace HistoryVerifier

variable (codec : Codec) (state : HistoryVerifier)

/-- The freeze half of a transition. -/
def verifyFreeze (freeze : Decision) (control : ReconfigurationValue) : Checked Unit := do
  require (control.terminal = false ∧ freeze.slot = control.freeze ∧
    state.previousTerminal < control.freeze ∧ control.freeze < control.terminalSlot)
    "transition has invalid freeze boundary"
  validateReconfigurationTarget state.current control.target state.verifier.retiredIDs
  state.verifier.validateReconfigurationSlots control.freeze control.terminalSlot
  state.verifier.validateDecisionForRecovery codec freeze true
  state.verifier.validateFreezeBinding codec freeze

/-- The terminal half: it must match the freeze, and its recorders must be recorders
of the freeze certificate. -/
def verifyTerminal (verifier : Core) (freeze terminal : Decision)
    (frozen control : ReconfigurationValue) (abort : Bool) : Checked Unit := do
  require (control.terminal = true ∧ control.abort = abort ∧
    terminal.slot = frozen.terminalSlot ∧ control.freeze = frozen.freeze ∧
    control.terminalSlot = frozen.terminalSlot ∧ control.target = frozen.target)
    "transition has invalid terminal binding"
  verifier.validateDecisionForRecovery codec terminal true
  requireAll (fun summary =>
    require (summary.recorderID ∈ freeze.summaries.map Summary.recorderID ∧
      summary.reconfigurationID = freeze.proposal.hash)
      "terminal recorder is outside its freeze quorum") terminal.summaries

/-- Verifies one completed change, and returns the verifier that knows its decisions
together with the freeze control. -/
def verifyChange (transition : ConfigTransition) (abort : Bool) :
    Checked (Core × ReconfigurationValue) := do
  let freeze ← historyDecision codec state.current.configID transition.freeze
  let frozen ← controlOf codec freeze.proposal.value "transition has invalid freeze boundary"
  state.verifyFreeze codec freeze frozen
  let verifier := { state.verifier with
    decided := state.verifier.decided.insert freeze.slot transition.freeze }
  let terminal ← historyDecision codec state.current.configID transition.terminal
  let control ← controlOf codec terminal.proposal.value "transition has invalid terminal binding"
  verifyTerminal codec verifier freeze terminal frozen control abort
  .ok ({ verifier with decided := verifier.decided.insert terminal.slot transition.terminal },
    frozen)

/-- A successful transition retires removed members and starts a new epoch. -/
def verifyTransition (transition : ConfigTransition) : Checked HistoryVerifier := do
  let (verifier, frozen) ← state.verifyChange codec transition false
  .ok { verifier := { verifier with
          retiredIDs := verifier.retiredIDs ∪ (state.current.memberIDs.filter
            fun id => !(frozen.target.memberIDs.contains id)).toFinset
          configHistory := verifier.configHistory ++ [⟨frozen.terminalSlot + 1, frozen.target⟩] }
        current := frozen.target
        previousTerminal := frozen.terminalSlot }

def verifyTransitions : HistoryVerifier → List ConfigTransition → Checked HistoryVerifier
  | state, [] => .ok state
  | state, transition :: rest => do
    let next ← state.verifyTransition codec transition
    verifyTransitions next rest

/-- An abort is evidence only: it must be one of a pending addition. -/
def verifyAbort (transition : ConfigTransition) : Checked Core := do
  let (verifier, frozen) ← state.verifyChange codec transition true
  require (reconfigurationAdds state.current frozen.target = true)
    "abort target is not an addition"
  .ok { verifier with lastAbort := some transition }

end HistoryVerifier

/-- Reconstructs configuration authority from a trusted bootstrap configuration. -/
def validateMembershipHistory (codec : Codec) (initial : Cluster) (history : MembershipRecord) :
    Checked Core := do
  require (initial = history.genesis ∧ initial.members ≠ [])
    "membership history does not match bootstrap configuration"
  require initial.memberIDs.Nodup "duplicate bootstrap member"
  require ([] ∉ initial.memberIDs) "empty bootstrap member"
  let start : HistoryVerifier :=
    { verifier := newCore ⟨[], initial, false, false, [], true⟩ ⟨[], []⟩
      current := initial
      previousTerminal := 0 }
  let state ← HistoryVerifier.verifyTransitions codec start history.transitions
  match history.abort with
  | none => .ok state.verifier
  | some abort => state.verifyAbort codec abort

namespace Core

variable (codec : Codec) (core : Core)

/-- Restores configuration authority from a recovery base before the suffix is
replayed. -/
def installMembershipBase (base : ConsensusBase) : Checked Core :=
  if core.reconfigEnabled then
    match base.membership with
    | none =>
      if base.generationAnchorHash ≠ 0 ∧ core.configHistory.length = 1 ∧
          core.config.configID = base.configID then .ok core
      else .error "reconfiguration base lacks membership history"
    | some membership => do
      let verifier ← validateMembershipHistory codec core.config membership
      .ok { core with
        configHistory := verifier.configHistory
        retiredIDs := verifier.retiredIDs
        baseMembership := some membership
        lastAbort := membership.abort
        membershipVersion := membership.transitions.length }
  else
    match base.membership with
    | some _ => .error "fixed-membership base includes membership history"
    | none => .ok core

end Core

end Rhiza.QuePaxa
