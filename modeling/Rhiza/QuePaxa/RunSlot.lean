import Mathlib.Data.List.Sort
import Rhiza.QuePaxa.Record

/-! # The proposer's loop

One turn of the loop that drives a slot: the offer a proposer makes at its step, and
what it does with a quorum of answers. The quorum, the drawn priority and the bytes
of a value it has to fetch are inputs.
-/

namespace Rhiza.QuePaxa

open Foundations

/-- The state of a proposer between two turns. -/
structure Proposer where
  node : NodeID
  slot : ℕ
  leader : NodeID
  /-- Whether the leader may use the highest priority at the first step. -/
  allowLeaderFastPath : Bool
  step : ℕ
  proposal : Proposal
deriving DecidableEq, Repr

namespace Proposer

/-- A proposer at its first step. -/
def start (codec : Codec) (node : NodeID) (slot : ℕ) (leader : NodeID) (value : Bytes)
    (allowLeaderFastPath : Bool) : Proposer :=
  { node, slot, leader, allowLeaderFastPath, step := 4
    proposal := newProposal codec highestPriority node value }

/-- The offer of a turn: a new priority is drawn at the start of every round, except
by the leader at the first step. -/
def candidate (proposer : Proposer) (drawn : Priority) : Proposal :=
  if proposer.step % 4 = 0 ∧ (4 < proposer.step ∨ proposer.node ≠ proposer.leader ∨
      proposer.allowLeaderFastPath = false) then
    { proposer.proposal with priority := randomPriority drawn }
  else proposer.proposal

end Proposer

/-- What a quorum of answers leads to. -/
inductive Outcome where
  | decide (decision : Decision)
  | advance (step : ℕ) (proposal : Proposal)
deriving DecidableEq, Repr

/-- A reference gets its bytes, from memory or from another recorder. -/
def hydrateProposal (codec : Codec) (proposal : Proposal) (bytes : Bytes) :
    Checked Proposal :=
  if proposal.value ≠ [] then .ok proposal
  else do
    require (bytes ≠ [] ∧ codec.sha256 bytes = proposal.hash) "value is unavailable"
    .ok { proposal with value := bytes }

/-- The first answer of the highest step above the proposer's. -/
def caughtSummary (step : ℕ) (summaries : List Summary) : Option Summary :=
  summaries.foldl (fun caught summary =>
    if step < summary.step ∧ (∀ best ∈ caught, best.step < summary.step) then some summary
    else caught) none

/-- The scan of the first step: whether all first proposals so far have the highest
priority, and the first of them. Two different ones are an error. -/
def fastScan : List Summary → Bool → Option Proposal → Checked (Bool × Option Proposal)
  | [], fast, first => .ok (fast, first)
  | summary :: rest, fast, first =>
    let fast := fast && summary.firstCurrent.any (·.priority = highestPriority)
    match first with
    | none => fastScan rest fast summary.firstCurrent
    | some proposal =>
      if fast ∧ ¬ sameProposal (some proposal) summary.firstCurrent then
        .error "multiple highest-priority proposals"
      else fastScan rest fast (some proposal)

/-- The next step of a proposer; the clock must not wrap. -/
def nextStep (step : ℕ) (proposal : Proposal) : Checked Outcome := do
  require (step + 1 < 2 ^ 64) "QuePaxa logical step overflow"
  .ok (.advance (step + 1) proposal)

/-- The greatest proposal of a phase is carried to the next step. -/
def adoptBest (codec : Codec) (step : ℕ) (err : String) (best : Option Proposal)
    (bytes : Bytes) : Checked Outcome :=
  match best with
  | none => .error err
  | some best => do
    let proposal ← hydrateProposal codec best bytes
    nextStep step proposal

/-- The first phase: a fast decision, or the greatest first proposal. -/
def concludeSpread (codec : Codec) (slot step : ℕ) (summaries : List Summary) (bytes : Bytes) :
    Checked Outcome := do
  let (fast, first) ← fastScan summaries (decide (step = 4)) none
  match fast, first with
  | true, some first => do
    let proposal ← hydrateProposal codec first bytes
    .ok (.decide { configID := 0, slot, step, proposal, summaries })
  | _, _ => adoptBest codec step "empty QuePaxa proposal set" (maxFirst summaries) bytes

/-- The last phase: the greatest prior aggregate starts the next round. -/
def concludeGather (codec : Codec) (step : ℕ) (summaries : List Summary) (bytes : Bytes) :
    Checked Outcome :=
  adoptBest codec step "empty QuePaxa common set" (maxPrior summaries) bytes

/-- A proposer that is behind continues from the first proposal of the highest step. -/
def catchUp (codec : Codec) (step : ℕ) (summaries : List Summary) (bytes : Bytes) :
    Checked Outcome :=
  match caughtSummary step summaries with
  | none => .error "invalid QuePaxa catch-up"
  | some caught =>
    match caught.firstCurrent with
    | none => .error "invalid QuePaxa catch-up"
    | some first => do
      let proposal ← hydrateProposal codec first bytes
      .ok (.advance caught.step proposal)

/-- A turn after a quorum of answers, in the order of their recorders. -/
def concludeSorted (codec : Codec) (slot step : ℕ) (proposal : Proposal)
    (summaries : List Summary) (bytes : Bytes) : Checked Outcome :=
  if summaries.all (·.step = step) then
    match step % 4 with
    | 0 => concludeSpread codec slot step summaries bytes
    | 1 => nextStep step proposal
    | 2 =>
      if sameProposal (some proposal) (maxPrior summaries) then
        .ok (.decide { configID := 0, slot, step, proposal, summaries })
      else nextStep step proposal
    | _ => concludeGather codec step summaries bytes
  else catchUp codec step summaries bytes

def sortSummaries (summaries : List Summary) : List Summary :=
  summaries.insertionSort fun left right => left.recorderID ≤ right.recorderID

def conclude (codec : Codec) (proposer : Proposer) (summaries : List Summary) (bytes : Bytes) :
    Checked Outcome :=
  concludeSorted codec proposer.slot proposer.step proposer.proposal (sortSummaries summaries) bytes

namespace Core

variable (codec : Codec) (core : Core)

/-- The recorders of an offer: a terminal may only be recorded by the safe set. -/
def offerCluster (slot : ℕ) (candidate : Proposal) : Checked Cluster :=
  if core.reconfigEnabled then
    let cluster := core.clusterForSlot slot
    if codec.isTerminal candidate.value then
      match core.reconfiguration with
      | none => .error "terminal has no freeze evidence"
      | some state => do
        let safe := cluster.members.filter fun member => member.id ∈ state.safe
        require (cluster.quorumSize ≤ safe.length) "freeze evidence lacks old quorum"
        .ok { cluster with members := safe }
    else .ok cluster
  else .ok core.config

/-- The promise an offer carries: the identity of the change it drains, or for a
freeze outside of any change its own hash. -/
def offerReconfigurationID (slot : ℕ) (candidate : Proposal) : ValueHash :=
  match core.reconfiguration with
  | some state => if state.freeze < slot ∧ slot ≤ state.terminal then state.id else 0
  | none =>
    match codec.decodeReconfiguration candidate.value with
    | .ok (some control) =>
      if control.terminal = false ∧ core.reconfigEnabled then codec.sha256 candidate.value else 0
    | _ => 0

/-- The number of answers an offer waits for. -/
def offerQuorum (slot : ℕ) : ℕ :=
  (if core.reconfigEnabled then core.clusterForSlot slot else core.config).quorumSize

/-- The request of a turn, and the recorders it goes to. -/
def offer (proposer : Proposer) (drawn : Priority) :
    Checked (RecordRequest × List NodeID) := do
  let candidate := proposer.candidate drawn
  let cluster ← core.offerCluster codec proposer.slot candidate
  .ok ({ slot := proposer.slot
         step := proposer.step
         configID := cluster.configID
         reconfigurationID := core.offerReconfigurationID codec proposer.slot candidate
         proposal := candidate }, cluster.memberIDs)

end Core

end Rhiza.QuePaxa
