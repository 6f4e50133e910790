import Rhiza.QuePaxa.World

/-! # Completed writes and read indices

A write completes when a learner quorum knows its decision: `completeDecision`
appends the local decision marker, waits for the local prefix, and `SendDecision`
hands the decision to the peers until, with the local node, a majority has
acknowledged it. `ReadIndex` asks a quorum for its certified tips and returns the
greatest.
-/

namespace Rhiza.QuePaxa

open Foundations

/-- `decisionHasRecorder`: the certificate of the decision names the node. -/
def Decision.hasRecorder (decision : Decision) (node : NodeID) : Bool :=
  decision.summaries.any (·.recorderID = node)

namespace Core

variable (core : Core)

/-- The checks at the entry of a proposal. A node that is neither an observer nor a
learner was constructed as a member. -/
def mayPropose : Bool :=
  !core.observer && (!(core.reconfigEnabled || core.learner) || core.isVoter) &&
    (core.learner || core.config.memberIDs.contains core.nodeID)

/-- The configuration a decision is learned in, and read indices are taken in. -/
def learnerCluster (slot : ℕ) : Cluster :=
  if core.reconfigEnabled then core.clusterForSlot slot else core.config

/-- A peer acknowledges a decision once it has accepted it and its contiguous prefix
covers the slot. A peer that the certificate names accepts it as a hint; another one
accepts it durably. -/
def acknowledges (decision : Decision) : Bool :=
  decide (decision.slot ≤ core.tip) &&
    (decide (decision.slot ≤ core.floor) ||
      (core.decided.lookup decision.slot).any (·.hash = decision.proposal.hash) &&
        (decision.hasRecorder core.nodeID || decide (decision.slot ∈ core.durable)))

end Core

/-- A `completeDecision` call that waits for its prefix and its learners. -/
structure Completing where
  node : NodeID
  decision : Decision

/-- A running `readIndexExcluding` call with the tips it has received. -/
structure ReadCall where
  node : NodeID
  cluster : Cluster
  excluded : Option NodeID
  observed : List (NodeID × ℕ)

/-- The call returns the greatest tip as soon as a quorum has answered. -/
def ReadCall.result (read : ReadCall) : Option ℕ :=
  if read.observed.length = read.cluster.quorumSize then
    some ((read.observed.map Prod.snd).foldl max 0)
  else none

/-- A cluster together with its completing writes and its running reads. -/
structure Service where
  world : World
  completing : Table ℕ Completing
  /-- The acknowledgements of learned decisions. -/
  learned : List (NodeID × Decision)
  /-- The slots of completed writes, with the node that completed them. -/
  completed : List (NodeID × ℕ)
  reads : Table ℕ ReadCall

inductive Call where
  | network (event : Event)
  | completeDecision (id : ℕ) (node : NodeID) (slot : ℕ)
  | acknowledge (node : NodeID) (decision : Decision)
  | complete (id : ℕ) (learners : List NodeID)
  | readIndex (id : ℕ) (node : NodeID) (excluded : Option NodeID)
  | readTip (id : ℕ) (member : NodeID)
  | returnRead (id : ℕ)
deriving DecidableEq, Repr

namespace Service

variable (codec : Codec) (service : Service)

/-- The calls of a node end with it. -/
def interrupt (node : NodeID) : Service :=
  { service with
    completing := service.completing.restrict fun id =>
      (service.completing.lookup id).all (·.node ≠ node)
    reads := service.reads.restrict fun id => (service.reads.lookup id).all (·.node ≠ node) }

def network (event : Event) : Option Service := do
  let world ← service.world.step codec event
  match event with
  | .perform node .crash => some { service.interrupt node with world }
  | _ => some { service with world }

/-- The marker of the decision is appended; a single voter makes it durable instead. -/
def appendMarker (node : NodeID) (slot : ℕ) : Option World :=
  let core := service.world.core node
  if (core.learnerCluster slot).members.length = 1 then
    if slot ∈ core.durable then some service.world else none
  else service.world.perform codec node (.logDecision slot)

/-- The first section of `completeDecision`: the marker, and the certified decision
that is handed to the peers. -/
def completeDecision (id : ℕ) (node : NodeID) (slot : ℕ) : Option Service :=
  if (service.world.core node).mayPropose = true ∧ service.completing.lookup id = none then do
    let marked ← service.appendMarker codec node slot
    let decided ← (marked.core node).decided.lookup slot
    let decision ← ((marked.core node).certifiedDecision codec decided).toOption
    let world ← marked.serve codec node slot
    some { service with world, completing := service.completing.insert id ⟨node, decision⟩ }
  else none

def acknowledge (node : NodeID) (decision : Decision) : Option Service :=
  if decision ∈ service.world.decisions ∧ (service.world.core node).acknowledges decision then
    some { service with learned := (node, decision) :: service.learned }
  else none

/-- The acknowledgements of the listed peers make, with the local node, a majority. -/
def learnerQuorum (call : Completing) (learners : List NodeID) : Bool :=
  let members := ((service.world.core call.node).learnerCluster call.decision.slot).memberIDs
  members.length ≤ 1 ∨ (learners.Nodup ∧ members.length / 2 + 1 ≤ 1 + learners.length ∧
    ∀ learner ∈ learners, learner ≠ call.node ∧ learner ∈ members ∧
      (learner, call.decision) ∈ service.learned)

def complete (id : ℕ) (learners : List NodeID) : Option Service := do
  let call ← service.completing.lookup id
  if call.decision.slot ≤ (service.world.core call.node).tip ∧
      service.learnerQuorum call learners then
    some { service with
      completing := service.completing.erase id
      completed := (call.node, call.decision.slot) :: service.completed }
  else none

/-- A node serves reads once it has recovered through what its log knew of. -/
def serves (node : NodeID) : Bool :=
  (service.world.core node).canParticipateReadIndex &&
    decide (service.world.target node ≤ (service.world.core node).tip)

def readIndex (id : ℕ) (node : NodeID) (excluded : Option NodeID) : Option Service :=
  let core := service.world.core node
  if service.reads.lookup id = none ∧ service.serves node ∧ excluded ≠ some node then
    some { service with
      reads := service.reads.insert id ⟨node, core.learnerCluster (core.tip + 1), excluded, []⟩ }
  else none

/-- The tip of a member reaches the call: its own, or that of a peer that serves. -/
def readTip (id : ℕ) (member : NodeID) : Option Service := do
  let read ← service.reads.lookup id
  if member ∈ read.cluster.memberIDs ∧ some member ≠ read.excluded ∧
      member ∉ read.observed.map Prod.fst ∧
      read.observed.length < read.cluster.quorumSize ∧
      (member = read.node ∨ service.serves member) then
    some { service with
      reads := service.reads.insert id { read with
        observed := (member, (service.world.core member).tip) :: read.observed } }
  else none

def step (service : Service) : Call → Option Service
  | .network event => service.network codec event
  | .completeDecision id node slot => service.completeDecision codec id node slot
  | .acknowledge node decision => service.acknowledge node decision
  | .complete id learners => service.complete id learners
  | .readIndex id node excluded => service.readIndex id node excluded
  | .readTip id member => service.readTip id member
  | .returnRead id => some { service with reads := service.reads.erase id }

def run (service : Service) (calls : List Call) : Option Service :=
  runFrom (step codec) service calls

def initial (deployment : World.Deployment) : Service where
  world := World.initial deployment
  completing := ∅
  learned := []
  completed := []
  reads := ∅

end Service

end Rhiza.QuePaxa
