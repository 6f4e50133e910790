import Rhiza.QuePaxa.Checkpoint
import Rhiza.QuePaxa.Prefix

/-! # A replica that votes for checkpoints

The sections of a replica with the checks of checkpoint seals in place, and what the
replica has prepared and voted for over the life of its log. An offer is validated
outside the lock and recorded under it, in two steps that others may come between.
-/

namespace Rhiza.QuePaxa

open Foundations

/-- What a replica has committed itself to. -/
inductive Mark where
  /-- The root counts as durably prepared at the index. -/
  | prepared (index : ℕ) (root : ValueHash)
  /-- A receipt for the seal was appended. -/
  | voted (checkpoint : CheckpointSeal)
deriving DecidableEq, Repr

/-- A later vote is not below the prepared index, and at that index it is for the
prepared root. -/
def Mark.Respects : Mark → Mark → Prop
  | .prepared index root, .voted checkpoint =>
    index ≤ checkpoint.index ∧ (checkpoint.index = index → checkpoint.rootHash = root)
  | _, _ => True

instance : ∀ earlier later : Mark, Decidable (earlier.Respects later)
  | .prepared _ _, .voted _ => inferInstanceAs (Decidable (_ ∧ _))
  | .prepared _ _, .prepared _ _ => isTrue trivial
  | .voted _, _ => isTrue trivial

/-- A vote at the compaction floor is for the recovery root of the floor. -/
def Mark.KeepsFloorRoot (core : Core) : Mark → Prop
  | .voted checkpoint => checkpoint.index = core.floor → checkpoint.rootHash = core.floorRoot
  | .prepared _ _ => True

instance (core : Core) : ∀ mark : Mark, Decidable (mark.KeepsFloorRoot core)
  | .voted _ => inferInstanceAs (Decidable (_ → _))
  | .prepared _ _ => isTrue trivial

structure Voter where
  replica : Replica
  /-- The offers that passed the checks outside the lock. -/
  validated : List RecordRequest
  /-- The sealed checkpoints that passed the checks of a recovery base. -/
  vetted : List CheckpointSeal
  history : List Mark

/-- What a voter can do next. -/
inductive VoterEvent where
  /-- A section without checkpoint checks of its own. -/
  | perform (action : Action)
  | validate (request : RecordRequest)
  | record (request : RecordRequest)
  /-- The appending section of `PrepareCheckpoint`, for a seal its validator approved. -/
  | prepare (checkpoint : CheckpointSeal) (payload : Bytes)
  /-- A later `PrepareCheckpoint` takes up a marker whose durability is unresolved. -/
  | resume (index : ℕ)
  | vet (checkpoint : CheckpointSeal) (certified : DecidedValue) (approval : Option Bool)
  | restore (checkpoint : CheckpointSeal)
deriving DecidableEq, Repr

namespace Replica

variable (codec : Codec) (replica : Replica)

/-- The checkpoint lock and the running compactions exclude each other. -/
def checkpointFree : Bool :=
  replica.compaction.isNone && replica.pending.all (!·.1.holdsCheckpoint)

/-- The preparation that a finished call completes. -/
def preparedMarks (index : ℕ) : List Mark :=
  match replica.pending[index]? with
  | some (.prepare index prepared, _) =>
    match replica.core.prepareFinish index prepared with
    | .ok _ => [.prepared index prepared.root]
    | .error _ => []
  | _ => []

/-- The roots that a restart counts as prepared, from the markers in the log. -/
def recoveredMarks : List Mark :=
  replica.core.preparedCheckpoints.entries.map fun entry => .prepared entry.1 entry.2

/-- The seal that a receipt votes for. A decided slot gets no receipt. -/
def votedMarks (request : RecordRequest) : List Mark :=
  if (replica.core.decided.lookup request.slot).isNone then
    match replica.core.offeredSeal codec request.proposal.hash with
    | .ok (some checkpoint) => [.voted checkpoint]
    | _ => []
  else []

end Replica

namespace Voter

variable (codec : Codec) (voter : Voter)

/-- A section of the replica, with the marks it leaves. A crash ends the calls that
were between two sections; a marker that another call's sync made durable is prepared
from then on, although its own call never returned. -/
def perform (voter : Voter) : Action → Option Voter
  | .record _ _ | .prepare _ _ _ => none
  | .crash => do
    let replica ← voter.replica.step codec .crash
    some
      { replica, validated := [], vetted := [],
        history := voter.history ++ replica.recoveredMarks }
  | .finish index => do
    let replica ← voter.replica.step codec (.finish index)
    some { voter with replica, history := voter.history ++ voter.replica.preparedMarks index }
  | action => do
    let replica ← voter.replica.step codec action
    some { voter with replica }

/-- The locked section of `Record`. The exact certified value of a decided slot needs
no validation. -/
def record (request : RecordRequest) : Option Voter :=
  if request ∈ voter.validated ∨ voter.replica.core.exactCertified request = true then do
    let eligible := (voter.replica.core.checkCheckpointRecordEligibility codec
      request.proposal.hash).toOption.isSome
    let replica ← voter.replica.step codec (.record request eligible)
    some { voter with
      replica
      history := voter.history ++ voter.replica.votedMarks codec request }
  else none

def prepare (checkpoint : CheckpointSeal) (payload : Bytes) : Option Voter := do
  let eligible := (voter.replica.core.checkPrepare codec checkpoint payload).toOption.isSome
  let replica ← voter.replica.step codec (.prepare checkpoint payload eligible)
  some { voter with replica }

def resume (index : ℕ) : Option Voter :=
  if voter.replica.checkpointFree then do
    let prepared ← voter.replica.core.pendingPrepares.lookup index
    some { voter with replica := { voter.replica with
      pending := voter.replica.wait (.prepare index prepared) } }
  else none

def restore (checkpoint : CheckpointSeal) : Option Voter :=
  if checkpoint ∈ voter.vetted ∧ voter.replica.checkpointFree ∧ voter.replica.barrier then do
    let core ← (voter.replica.core.restoreCheckpointBase codec checkpoint).toOption
    some { voter with
      replica := { voter.replica with core }
      history := voter.history ++ [.prepared checkpoint.index checkpoint.rootHash] }
  else none

def step (voter : Voter) : VoterEvent → Option Voter
  | .perform action => voter.perform codec action
  | .validate request =>
    if request ∈ voter.replica.admitted then do
      (voter.replica.core.validateCheckpointValue codec request.proposal.hash).toOption
      some { voter with validated := request :: voter.validated }
    else none
  | .record request => voter.record codec request
  | .prepare checkpoint payload => voter.prepare codec checkpoint payload
  | .resume index => voter.resume index
  | .vet checkpoint certified approval => do
    (voter.replica.core.validateCheckpointBase codec checkpoint certified approval).toOption
    some { voter with vetted := checkpoint :: voter.vetted }
  | .restore checkpoint => voter.restore codec checkpoint

def run (voter : Voter) (events : List VoterEvent) : Option Voter :=
  runFrom (step codec) voter events

/-- A voter with an empty log. -/
def initial (options : CoreOptions) : Voter where
  replica := Replica.opened (newCore options ⟨[], []⟩)
  validated := []
  vetted := []
  history := []

/-- No vote goes back behind what was prepared before it. -/
def Fenced : Prop := voter.history.Pairwise Mark.Respects

/-- A receipt for a seal at the compaction floor is for the recovery root of the floor. -/
def Safe (voter : Voter) : VoterEvent → Prop
  | .record request =>
    ∀ mark ∈ voter.replica.votedMarks codec request, mark.KeepsFloorRoot voter.replica.core
  | _ => True

instance (voter : Voter) : ∀ event, Decidable (voter.Safe codec event)
  | .record _ => inferInstanceAs (Decidable (∀ mark ∈ Replica.votedMarks _ _ _, _))
  | .perform _ | .validate _ | .prepare _ _ | .resume _ | .vet _ _ _ | .restore _ =>
    inferInstanceAs (Decidable True)

end Voter

end Rhiza.QuePaxa
