import Rhiza.QuePaxa.Reconfiguration

/-! # Storing and recording

How value bytes, decisions and decision markers enter the memory and the log of a
replica, and the recorder's side of the protocol: the admission of a request, the
staging of its value, and the locked section that repeats the mutable guards and then
answers, either from a known decision or from the register of the slot.

Sections that the source runs between two acquisitions of its lock are separate
functions: what is appended first is marked durable, and an answer is released, only by
a later section, once the entries it rests on are synced.
-/

namespace Rhiza.QuePaxa

open Foundations

/-- What a computed answer still waits for. -/
inductive Completion where
  | ready
  /-- A sync, after which the value counts as durable. The call still holds the register
  that gave its answer. -/
  | syncValue (hash : ValueHash) (register : ISR)
  /-- A sync, after which the decision counts as durable. -/
  | syncDecision (slot : ℕ) (hash : ValueHash)
  /-- The durability of a terminal and its whole prefix. -/
  | durable (slot : ℕ)
deriving DecidableEq, Repr

/-- Only the answers of a register wait for the sync of their value. -/
def Completion.fromRegister : Completion → Bool
  | syncValue _ _ => true
  | _ => false

namespace Core

variable (codec : Codec) (core : Core)

/-- Bytes that are already in memory are appended again only for a running
compaction that does not keep them. -/
def stageValueLocked (hash : ValueHash) (value : Bytes) : Checked Core :=
  match core.values.lookup hash with
  | some existing =>
    if existing ≠ value then .error "QuePaxa value hash collision"
    else
      match core.compactionValues with
      | none => .ok core
      | some kept =>
        if hash ∈ kept then .ok core
        else .ok { core with
          wal := core.wal.append (.proposal hash value)
          compactionValues := some (insert hash kept) }
  | none =>
    .ok { core with
      wal := core.wal.append (.proposal hash value)
      values := core.values.insert hash value
      compactionValues := core.compactionValues.map (insert hash) }

def stageValue (hash : ValueHash) (value : Bytes) : Checked Core := do
  require (value ≠ [] ∧ codec.checkValue value = .ok () ∧ codec.sha256 value = hash)
    "invalid QuePaxa value"
  core.stageValueLocked hash value

/-- The last section of `StoreValue`, `Record` and the decision paths. -/
def markValueDurable (hash : ValueHash) : Core :=
  { core with valueDurable := insert hash core.valueDurable }

/-- Appends the decision marker of a slot unless it has one. -/
def logDecision (decided : DecidedValue) : Core :=
  if decided.slot ∈ core.logged then core
  else { core with
    wal := core.wal.append (.decide decided)
    logged := insert decided.slot core.logged }

/-- Appends the missing markers of the listed slots; what was appended before an
undecided slot is found stays appended. -/
def logSlots : List ℕ → Core → Core × Checked Unit
  | [], core => (core, .ok ())
  | slot :: rest, core =>
    if slot ∈ core.logged then logSlots rest core
    else
      match core.decided.lookup slot with
      | none => (core, .error "slot is not decided")
      | some decided => logSlots rest (core.logDecision decided)

def markDecisionDurable (slot : ℕ) : Core :=
  { core with
    durable := insert slot core.durable
    valueDurable :=
      insert (((core.decided.lookup slot).map DecidedValue.hash).getD 0) core.valueDurable }

def markDecisionsDurable (slots : List ℕ) : Core :=
  slots.foldl (fun core slot => core.markDecisionDurable slot) core

/-- The slots from `first` through `last`. -/
def slotRange (first last : ℕ) : List ℕ :=
  (List.range (last + 1 - first)).map (first + ·)

/-- The appending section of `EnsureDurable`: the slots to mark after the sync, or
none when nothing is left to do. A terminal needs the markers of its whole retained
prefix, since a new epoch must be reconstructible after a crash. -/
def ensureDurableAppend (slot : ℕ) : Core × Checked (Option (List ℕ)) :=
  if slot = 0 then (core, .error "invalid QuePaxa slot")
  else if slot ≤ core.floor then (core, .ok none)
  else
    match core.decided.lookup slot with
    | none => (core, .error "slot is not decided")
    | some decided =>
      if slot ∈ core.durable then (core, .ok none)
      else
        match codec.decodeReconfiguration decided.value with
        | .error err => (core, .error err)
        | .ok control =>
          let terminal := control.any ReconfigurationValue.terminal
          if terminal ∧ core.tip < slot then (core, .error "terminal prefix is incomplete")
          else
            let slots := slotRange (if terminal then core.floor + 1 else slot) slot
            match logSlots slots core with
            | (next, .error err) => (next, .error err)
            | (next, .ok ()) => (next, .ok (some slots))

/-- Installs a validated decision that the slot does not have yet. -/
def installDecision (decision : Decision) (certificate : Certificate) : Core :=
  { core with
    values := core.values.insert decision.proposal.hash decision.proposal.value
    sealedRoots :=
      match codec.decodeCheckpointSeal decision.proposal.value with
      | .ok (some checkpoint) =>
        core.sealedRoots.insert checkpoint.rootHash ⟨checkpoint, decision.slot⟩
      | _ => core.sealedRoots
    decided := core.decided.insert decision.slot
      { slot := decision.slot
        hash := decision.proposal.hash
        value := decision.proposal.value
        certificate }
    durable := core.durable.erase decision.slot
    logged := core.logged.erase decision.slot
    recorders := core.recorders.erase decision.slot }

def advance : Core × Checked Unit :=
  if core.reconfigEnabled then core.advanceReconfigurationTip codec
  else (core.advanceTip codec, .ok ())

/-- The checks of `acceptDecision`, and the configuration its certificate is bound
to. They run before the lock is taken for the installation. -/
def acceptCheck (decision : Decision) : Checked ℕ := do
  core.validateDecisionAtFloor codec decision
  let cluster := if core.reconfigEnabled then core.clusterForSlot decision.slot else core.config
  require (decision.configID = 0 ∨ decision.configID = cluster.configID)
    "decision config ID does not match slot"
  .ok cluster.configID

/-- Installs a checked decision in memory. A decision whose control fails to apply
stays installed. -/
def acceptInstall (decision : Decision) (configID : ℕ) : Core × Checked Unit :=
  if decision.slot ≤ core.floor then (core, .ok ())
  else
    match core.decided.lookup decision.slot with
    | some existing =>
      if existing.hash ≠ decision.proposal.hash ∨ existing.value ≠ decision.proposal.value then
        (core, .error "slot already decided with another value")
      else if core.reconfigEnabled ∧ decision.slot = core.tip + 1 then
        core.advanceReconfigurationTip codec
      else (core, .ok ())
    | none =>
      (core.installDecision codec { decision with configID }
        (encodeCertificate configID { decision with configID })).advance codec

def compactedError (slot : ℕ) : Checked Unit :=
  require (core.floor < slot) "QuePaxa history compacted"

/-- The value a request refers to: the inline bytes, or the ones in memory. -/
def requestValue (request : RecordRequest) : Bytes :=
  if request.proposal.value ≠ [] then request.proposal.value
  else (core.values.lookup request.proposal.hash).getD []

/-- A terminal must continue the exact frozen change. -/
def terminalMatches (request : RecordRequest) (control : ReconfigurationValue)
    (state : ReconfigurationState) : Bool :=
  request.slot = state.terminal ∧ core.tip + 1 = state.terminal ∧
    control.freeze = state.freeze ∧ control.terminalSlot = state.terminal ∧
    control.prefixHash = core.prefixAt core.tip ∧ control.target = state.target

/-- The terminal part of the admission. `admission` is the answer of the external
admission callback, if one is installed. -/
def admitTerminal (request : RecordRequest) (control : ReconfigurationValue)
    (admission : Option Bool) : Checked Unit :=
  match core.reconfiguration with
  | none => .error "invalid reconfiguration terminal record"
  | some state => do
    let adds := reconfigurationAdds (core.clusterForSlot request.slot) state.target
    require (core.terminalMatches request control state = true)
      "invalid reconfiguration terminal record"
    if control.abort then require (adds = true) "only a pending addition may be aborted"
    else if adds then
      match admission with
      | none => .error "reconfiguration admission is unavailable"
      | some approved => require (approved = true) "reconfiguration admission refused"
    else .ok ()

/-- Only a terminal may use the terminal slot of a change, unless it is decided. -/
def admitControl (request : RecordRequest) (control : Option ReconfigurationValue)
    (admission : Option Bool) : Checked Unit :=
  match control.filter fun control =>
      control.terminal ∧ core.decided.lookup request.slot = none with
  | some control => core.admitTerminal request control admission
  | none =>
    require (∀ state ∈ core.reconfiguration, request.slot ≠ state.terminal)
      "only terminal control may use frozen terminal slot"

/-- The admission with reconfiguration enabled. -/
def admitReconfiguration (request : RecordRequest) (admission : Option Bool) :
    Checked Unit := do
  let cluster := core.clusterForSlot request.slot
  require (request.configID = cluster.configID) "record config ID does not match slot"
  require (core.voterForCluster cluster = true) "QuePaxa quorum unavailable"
  require (request.slot ≤ core.tip + 16) "record slot exceeds bounded reconfiguration pipeline"
  require (∀ state ∈ core.reconfiguration, request.slot ≤ state.terminal)
    "record is beyond frozen reconfiguration terminal"
  require (∀ state ∈ core.reconfiguration, state.freeze < request.slot →
    request.reconfigurationID = state.id) "record is outside frozen reconfiguration drain"
  let control ← codec.decodeReconfiguration (core.requestValue request)
  core.admitControl request control admission

/-- Without reconfiguration no control may be recorded. -/
def rejectControl (value : Bytes) : Checked Unit := do
  let control ← codec.decodeReconfiguration value
  require (control = none) "reconfiguration control is disabled"

/-- The admission of the value and the configuration of a request. -/
def admitValue (request : RecordRequest) (admission : Option Bool) : Checked Unit :=
  if core.reconfigEnabled then core.admitReconfiguration codec request admission
  else rejectControl codec request.proposal.value

/-- The admission of a request. -/
def recordAdmission (request : RecordRequest) (admission : Option Bool) : Checked Unit := do
  require (core.observer = false) "QuePaxa quorum unavailable"
  require (request.slot ≠ 0 ∧ 4 ≤ request.step) "invalid QuePaxa slot or step"
  core.admitValue codec request admission
  core.compactedError request.slot

/-- Stages the inline value of an admitted request. -/
def recordStage (request : RecordRequest) : Checked Core := do
  if request.proposal.value ≠ [] then
    codec.checkValue request.proposal.value
    core.stageValue codec request.proposal.hash request.proposal.value
  else
    if core.reconfigEnabled then .ok core
    else
      rejectControl codec ((core.values.lookup request.proposal.hash).getD [])
      .ok core

/-- A recorder whose certified freeze named it may answer past its own terminal. -/
def promisedFreeze (request : RecordRequest) : Bool :=
  match core.decided.lookup request.slot with
  | none => false
  | some existing =>
    existing.hash = request.proposal.hash &&
      existing.certificate.decision.summaries.any fun summary =>
        summary.recorderID = core.nodeID && summary.reconfigurationID = existing.hash

/-- The slots of a freeze are checked when it is next in the local prefix. -/
def guardFreezeSlots (request : RecordRequest) (control : ReconfigurationValue) :
    Checked Unit :=
  if request.slot = core.tip + 1 then
    core.validateReconfigurationSlots control.freeze control.terminalSlot
  else .ok ()

/-- A freeze offered before any change is under way is checked against the local
prefix, as far as that reaches. -/
def guardFirstFreeze (request : RecordRequest) (control : ReconfigurationValue) :
    Checked Unit := do
  core.guardFreezeSlots request control
  require (control.freeze = request.slot) "freeze control slot mismatch"
  validateReconfigurationTarget (core.clusterForSlot request.slot) control.target core.retiredIDs
  require (request.slot - 1 ≤ core.tip → core.prefixAt (request.slot - 1) = control.prefixHash)
    "freeze prefix mismatch"

/-- The guards on a freeze control. -/
def guardFreeze (request : RecordRequest) (control : ReconfigurationValue) :
    Checked Unit := do
  require (((∀ state ∈ core.reconfiguration, request.slot = state.freeze) ∧
    control.terminalSlot ≤ core.highestKnownSlot) → core.promisedFreeze request = true)
    "recorder has no bounded promise before its legacy terminal state"
  if core.reconfiguration = none then core.guardFirstFreeze request control else .ok ()

/-- The guards on a terminal control of an undecided slot during a change. -/
def guardTerminal (request : RecordRequest) (control : ReconfigurationValue)
    (state : ReconfigurationState) : Checked Unit := do
  requireAll (fun proposal => require (proposal.hash = request.proposal.hash)
    "terminal recorder contains incompatible prior state") (core.recorder request.slot).proposals
  require (core.terminalMatches request control state = true)
    "terminal control changed while request waited"

/-- The guards on a control, by its kind. -/
def guardControl (request : RecordRequest) : Option ReconfigurationValue → Checked Unit
  | none => .ok ()
  | some control =>
    if control.terminal then
      match core.reconfiguration with
      | none => .ok ()
      | some state =>
        if core.decided.lookup request.slot = none then core.guardTerminal request control state
        else .ok ()
    else core.guardFreeze request control

/-- During a change a request must belong to its drain, and the terminal slot is
reserved for terminals. -/
def guardFrozen (request : RecordRequest) : Checked Unit :=
  match core.reconfiguration with
  | none => .ok ()
  | some state => do
    require (request.slot ≤ state.terminal ∧
      (state.freeze < request.slot → request.reconfigurationID = state.id))
      "record is outside frozen reconfiguration drain"
    let offered ← codec.decodeReconfiguration (core.requestValue request)
    require (request.slot = state.terminal → offered.any ReconfigurationValue.terminal = true)
      "only terminal control may use frozen terminal slot"

/-- The repeated guards with reconfiguration enabled. -/
def guardReconfiguration (request : RecordRequest) : Checked Unit := do
  let cluster := core.clusterForSlot request.slot
  require (request.configID = cluster.configID) "record config ID changed while request waited"
  require (core.voterForCluster cluster = true) "QuePaxa quorum unavailable"
  require (request.slot ≤ core.tip + 16) "record slot exceeds bounded reconfiguration pipeline"
  let control ← codec.decodeReconfiguration ((core.values.lookup request.proposal.hash).getD [])
  core.guardControl request control
  core.guardFrozen codec request

/-- The guards that are repeated under the lock. -/
def recordGuard (request : RecordRequest) : Checked Unit := do
  core.compactedError request.slot
  if core.reconfigEnabled then core.guardReconfiguration codec request else .ok ()

/-- The request repeats the exact certified value of the slot. -/
def exactCertified (request : RecordRequest) : Bool :=
  match core.decided.lookup request.slot with
  | none => false
  | some decided => request.proposal.value ≠ [] ∧ decided.hash = request.proposal.hash ∧
      decided.value = request.proposal.value

/-- The checkpoint checks before an answer. `eligible` is the outcome of the checks of
a checkpoint seal against the local history and the prepared fence. -/
def checkpointEligibility (hash : ValueHash) (eligible : Bool) : Checked Unit :=
  match core.values.lookup hash with
  | none => .error "proposal value is unavailable"
  | some value => do
    let checkpoint ← codec.decodeCheckpointSeal value
    require (checkpoint ≠ none → eligible = true)
      "checkpoint seal does not match local certified prefix"

/-- The exact certified value needs no further check. -/
def recordEligibility (request : RecordRequest) (eligible : Bool) : Checked Unit :=
  if core.exactCertified request then .ok ()
  else core.checkpointEligibility codec request.proposal.hash eligible

/-- The summary for a slot with a known decision: the decided proposal stands for
both fields, at the later of the two steps. -/
def decidedSummary (request : RecordRequest) (decided : DecidedValue) : Summary where
  recorderID := core.nodeID
  reconfigurationID := if core.reconfigEnabled then request.reconfigurationID else 0
  step := max decided.decision.step request.step
  firstCurrent := some decided.decision.proposal
  aggregatePrior := some decided.decision.proposal

/-- The answer for a slot with a known decision. The register is not touched. -/
def answerDecided (request : RecordRequest) (decided : DecidedValue) :
    Core × Summary × Completion :=
  if request.slot ∈ core.durable then (core, core.decidedSummary request decided, .ready)
  else if codec.isTerminal decided.value then
    (core.logDecision decided, core.decidedSummary request decided, .durable request.slot)
  else
    (core.logDecision decided, core.decidedSummary request decided,
      .syncDecision request.slot decided.hash)

/-- The answer of the register. Registers store references, so the value of the
offer is dropped. -/
def answerRegister (request : RecordRequest) : Core × Summary × Completion :=
  let proposal := request.proposal.ref
  let (next, summary) := (core.recorder request.slot).record request.step proposal
  ({ core with
      wal := core.wal.append (.receipt request.slot proposal.hash next core.reconfigEnabled)
      recorders := core.recorders.insert request.slot next },
    { summary with
      recorderID := core.nodeID
      reconfigurationID := if core.reconfigEnabled then request.reconfigurationID else 0 },
    .syncValue proposal.hash next)

/-- The register answers only for a value that is known to it or in memory. -/
def valueAvailable (request : RecordRequest) : Checked Unit :=
  let state := core.recorder request.slot
  match core.values.lookup request.proposal.hash with
  | none =>
    require (sameProposal state.firstCurrent (some request.proposal) = true ∨
      sameProposal state.aggregateCurrent (some request.proposal) = true ∨
      sameProposal state.aggregatePrior (some request.proposal) = true)
      "proposal value is unavailable"
  | some value =>
    require (request.proposal.value ≠ [] → request.proposal.value = value) "proposal hash mismatch"

/-- The locked section of a record. -/
def recordApply (request : RecordRequest) (eligible : Bool) :
    Checked (Core × Summary × Completion) := do
  core.recordGuard codec request
  core.recordEligibility codec request eligible
  match core.decided.lookup request.slot with
  | some decided => .ok (core.answerDecided codec request decided)
  | none => do
    core.valueAvailable request
    .ok (core.answerRegister request)

end Core

end Rhiza.QuePaxa
