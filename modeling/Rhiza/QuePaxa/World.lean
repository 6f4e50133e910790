import Rhiza.QuePaxa.Replica
import Rhiza.QuePaxa.RunSlot

/-! # A cluster of replicas

Replicas, the proposers running on them, and a network that may lose, delay, reorder
and duplicate: everything ever sent stays available for delivery. The world also
keeps the answers recorders computed and the decisions that proposers returned or
nodes handed on, in order, as the history the cluster-level statements speak about.
-/

namespace Rhiza.QuePaxa

open Foundations

/-- An offer on its way: the request, its recorders, and the quorum it waits for. -/
structure Offer where
  request : RecordRequest
  recorders : List NodeID
  quorum : ℕ
deriving DecidableEq, Repr

/-- A running `runSlot` call, between two turns or waiting for answers. -/
structure Thread where
  proposer : Proposer
  waiting : Option Offer
deriving DecidableEq, Repr

/-- An answer a recorder computed, and whether its register gave it. -/
structure Answer where
  request : RecordRequest
  summary : Summary
  register : Bool
deriving DecidableEq, Repr

structure World where
  replicas : NodeID → Replica
  /-- The slot a restarted node must recover through before it serves again. -/
  target : NodeID → ℕ
  threads : Table ℕ Thread
  /-- Slots handed out as fresh whose call has not reached its first turn. -/
  reserved : List (NodeID × ℕ)
  requests : List (NodeID × RecordRequest)
  answers : List Answer
  replies : List (RecordRequest × Summary)
  decisions : List Decision

/-- What can happen next in a cluster. -/
inductive Event where
  | perform (node : NodeID) (action : Action)
  | reserve (node : NodeID)
  | release (node : NodeID) (slot : ℕ)
  | start (id : ℕ) (node : NodeID) (slot : ℕ) (value : Bytes) (fresh : Bool)
  | send (id : ℕ) (drawn : Priority)
  | adopt (id : ℕ)
  | serve (node : NodeID) (slot : ℕ)
  | conclude (id : ℕ) (summaries : List Summary) (bytes : Bytes)
  | stop (id : ℕ)
deriving DecidableEq, Repr

namespace World

variable (codec : Codec) (world : World)

def core (node : NodeID) : Core := (world.replicas node).core

instance : LawfulBEq (NodeID × RecordRequest) := inferInstance
instance : LawfulBEq (RecordRequest × Summary) := inferInstance

/-- Requests and decisions a replica works on were sent by somebody. -/
def delivers (node : NodeID) : Action → Bool
  | .admitRequest request _ => (node, request) ∈ world.requests
  | .check decision => decision ∈ world.decisions
  | _ => true

/-- The answer that a locked record section computed. -/
def newAnswers (replica : Replica) : Action → List Answer
  | .record request eligible =>
    match (replica.core.recordApply codec request eligible).toOption with
    | some (_, summary, completion) =>
      [⟨request, summary, completion.fromRegister⟩]
    | none => []
  | _ => []

/-- The reply that a finished call sends. -/
def newReplies (replica : Replica) : Action → List (RecordRequest × Summary)
  | .finish index =>
    match replica.pending[index]? with
    | some (.record request summary _, _) => [(request, summary)]
    | _ => []
  | _ => []

/-- A section of a replica. A crash also ends the proposers and reservations of its
node, and sets the slot it has to recover through. -/
def perform (node : NodeID) (action : Action) : Option World :=
  if world.delivers node action then do
    let replica ← (world.replicas node).step codec action
    let next : World := { world with
      replicas := Function.update world.replicas node replica
      answers := world.answers ++ newAnswers codec (world.replicas node) action
      replies := world.replies ++ newReplies (world.replicas node) action }
    if action = .crash then
      some { next with
        target := Function.update world.target node replica.core.recorderTip
        threads := world.threads.restrict fun id =>
          (world.threads.lookup id).all (·.proposer.node ≠ node)
        reserved := world.reserved.filter (·.1 ≠ node) }
    else some next
  else none

/-- Replaces the core of a node. -/
def setCore (node : NodeID) (core : Core) : World :=
  { world with
    replicas := Function.update world.replicas node { world.replicas node with core } }

/-- A proposal takes a slot. -/
def reserve (node : NodeID) : Option World :=
  if world.target node ≤ (world.core node).tip then
    let taken := (world.core node).reserveSlot
    some { world.setCore node taken.1 with
      reserved := if taken.2.2 then world.reserved else (node, taken.2.1) :: world.reserved }
  else none

/-- A proposer enters its loop; a fresh slot may be used once. -/
def start (id : ℕ) (node : NodeID) (slot : ℕ) (value : Bytes) (fresh : Bool) : Option World :=
  if world.threads.lookup id = none ∧ (fresh = true → (node, slot) ∈ world.reserved) then do
    let order ← ((world.core node).leaderOrder codec slot).toOption
    let leader ← order.head?
    some { world with
      threads := world.threads.insert id
        ⟨Proposer.start codec node slot leader value fresh, none⟩
      reserved := if fresh then world.reserved.erase (node, slot) else world.reserved }
  else none

/-- A turn of an undecided slot sends its offer. -/
def send (id : ℕ) (drawn : Priority) : Option World := do
  let thread ← world.threads.lookup id
  if thread.waiting = none ∧
      (world.core thread.proposer.node).decided.lookup thread.proposer.slot = none then do
    let core := world.core thread.proposer.node
    let (request, recorders) ← (core.offer codec thread.proposer drawn).toOption
    some { world with
      threads := world.threads.insert id
        { thread with waiting := some ⟨request, recorders, core.offerQuorum thread.proposer.slot⟩ }
      requests := world.requests ++ recorders.map fun recorder => (recorder, request) }
  else none

/-- A turn of a slot that was decided meanwhile returns the known decision. -/
def adopt (id : ℕ) : Option World := do
  let thread ← world.threads.lookup id
  let decided ← (world.core thread.proposer.node).decided.lookup thread.proposer.slot
  if thread.waiting = none then
    some { world with
      threads := world.threads.erase id
      decisions := world.decisions ++ [decided.decision] }
  else none

/-- A node hands its certified value of a slot to a replica that lacks it. -/
def serve (node : NodeID) (slot : ℕ) : Option World := do
  let decided ← (world.core node).decided.lookup slot
  let decision ← ((world.core node).certifiedDecision codec decided).toOption
  some { world with decisions := world.decisions ++ [decision] }

/-- The answers are replies of distinct recorders of the offer, and just a quorum. -/
def gathered (offer : Offer) (summaries : List Summary) : Bool :=
  (summaries.map Summary.recorderID).Nodup ∧ summaries.length = offer.quorum ∧
    ∀ summary ∈ summaries, (offer.request, summary) ∈ world.replies ∧
      summary.recorderID ∈ offer.recorders

/-- A turn with a quorum of answers ends the call or moves it to another step. -/
def conclude (id : ℕ) (summaries : List Summary) (bytes : Bytes) : Option World := do
  let thread ← world.threads.lookup id
  let offer ← thread.waiting
  if world.gathered offer summaries then do
    match ← (QuePaxa.conclude codec thread.proposer summaries bytes).toOption with
    | .decide decision =>
      some { world with
        threads := world.threads.erase id
        decisions := world.decisions ++ [decision] }
    | .advance step proposal =>
      some { world with
        threads := world.threads.insert id ⟨{ thread.proposer with step, proposal }, none⟩ }
  else none

def step (world : World) : Event → Option World
  | .perform node action => world.perform codec node action
  | .reserve node => world.reserve node
  | .release node slot => some (world.setCore node ((world.core node).releaseSlot slot))
  | .start id node slot value fresh => world.start codec id node slot value fresh
  | .send id drawn => world.send codec id drawn
  | .adopt id => world.adopt id
  | .serve node slot => world.serve codec node slot
  | .conclude id summaries bytes => world.conclude codec id summaries bytes
  | .stop id => some { world with threads := world.threads.erase id }

def run (world : World) (events : List Event) : Option World := runFrom (step codec) world events

/-- A node answers a request in one go: admission, staging, record, sync and reply. -/
def answerNow (node : NodeID) (request : RecordRequest) : List Event :=
  [.admitRequest request none, .stage request, .record request true, .sync, .finish 0].map
    (.perform node)

/-- A node checks a decision and installs it in memory. -/
def installNow (node : NodeID) (decision : Decision) (configID : ℕ) : List Event :=
  [.check decision, .install decision configID].map (.perform node)

/-- How the nodes of a cluster are started. -/
structure Deployment where
  config : Cluster
  reconfigEnabled : Bool
  observer : NodeID → Bool
  learner : NodeID → Bool
  walIdentity : NodeID → Bytes

def Deployment.member (deployment : Deployment) (node : NodeID) : CoreOptions :=
  ⟨node, deployment.config, deployment.observer node, deployment.learner node,
    deployment.walIdentity node, deployment.reconfigEnabled⟩

/-- Three voters, "A", "B" and "C", with a fixed configuration. -/
def trio : Deployment where
  config := ⟨1, [[65], [66], [67]].map fun id => ⟨id, [], [], [], [], []⟩⟩
  reconfigEnabled := false
  observer _ := false
  learner _ := false
  walIdentity _ := []

/-- A cluster whose nodes start with empty logs. -/
def initial (deployment : Deployment) : World where
  replicas node := Replica.opened (newCore (deployment.member node) ⟨[], []⟩)
  target _ := 0
  threads := ∅
  reserved := []
  requests := []
  answers := []
  replies := []
  decisions := []

end World

end Rhiza.QuePaxa
