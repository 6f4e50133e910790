import Rhiza.QuePaxa.Log

/-! # Sections that leave the votes alone

Most sections touch neither the registers nor the decisions of a replica. This module
says so once, for every section that is not a record, an installation, a part of a
compaction or a crash.
-/

namespace Rhiza.QuePaxa

open Foundations

/-- The part of a replica that votes and decides. -/
structure Votes where
  nodeID : NodeID
  config : Cluster
  reconfigEnabled : Bool
  baseLeaderEpoch : ℕ
  baseLeaderOrder : List NodeID
  baseFollowingEpoch : ℕ
  baseFollowingOrder : List NodeID
  floor : ℕ
  decided : Table ℕ DecidedValue
  recorders : Table ℕ ISR

/-- The votes together with the slot counters, the certified prefix and the membership. -/
structure Ledger where
  votes : Votes
  nextSlot : ℕ
  tip : ℕ
  prefixes : Table ℕ ValueHash
  configHistory : List ConfigEpoch
  retiredIDs : Finset NodeID
  reconfiguration : Option ReconfigurationState
  lastAbort : Option ConfigTransition
  membershipVersion : ℕ
  baseMembership : Option MembershipRecord
  options : CoreOptions

namespace Core

def votes (core : Core) : Votes where
  nodeID := core.nodeID
  config := core.config
  reconfigEnabled := core.reconfigEnabled
  baseLeaderEpoch := core.baseLeaderEpoch
  baseLeaderOrder := core.baseLeaderOrder
  baseFollowingEpoch := core.baseFollowingEpoch
  baseFollowingOrder := core.baseFollowingOrder
  floor := core.floor
  decided := core.decided
  recorders := core.recorders

def ledger (core : Core) : Ledger where
  votes := core.votes
  nextSlot := core.nextSlot
  tip := core.tip
  prefixes := core.prefixes
  configHistory := core.configHistory
  retiredIDs := core.retiredIDs
  reconfiguration := core.reconfiguration
  lastAbort := core.lastAbort
  membershipVersion := core.membershipVersion
  baseMembership := core.baseMembership
  options := core.toCoreOptions

theorem recorder_of_votes {core next : Core} (hvotes : next.votes = core.votes) (slot : ℕ) :
    next.recorder slot = core.recorder slot :=
  congrArg (fun votes => (votes.recorders.lookup slot).getD ISR.empty) hvotes

variable {codec : Codec} {core next : Core}

theorem Marks.ledger (hmarks : core.Marks next) : next.ledger = core.ledger := by
  obtain ⟨_, -, rfl⟩ := hmarks
  rfl

theorem Advances.votes (hgo : core.Advances next) : next.votes = core.votes := by
  obtain ⟨_, _, _, _, _, _, _, rfl⟩ := hgo
  rfl

theorem stageValueLocked_ledger {hash : ValueHash} {value : Bytes}
    (hstage : core.stageValueLocked hash value = .ok next) : next.ledger = core.ledger := by
  rcases stageValueLocked_cases hstage with ⟨-, -, rfl⟩ | ⟨-, rfl⟩ | ⟨-, rfl⟩ <;> rfl

theorem recordStage_ledger {request : RecordRequest}
    (hstage : core.recordStage codec request = .ok next) : next.ledger = core.ledger := by
  rcases recordStage_cases hstage with rfl | ⟨-, hstage⟩
  · rfl
  · exact stageValueLocked_ledger hstage

theorem prepareAppend_ledger {checkpoint : CheckpointSeal} {payload : Bytes} {eligible : Bool}
    {prepared : PendingCheckpointPrepare}
    (hmade : core.prepareAppend codec checkpoint payload eligible = .ok (next, prepared)) :
    next.ledger = core.ledger := by
  obtain ⟨middle, hmarks, -, rfl⟩ := prepareAppend_eq_ok hmade
  exact hmarks.ledger

end Core

theorem Core.reserveSlot_votes (core : Core) : core.reserveSlot.1.votes = core.votes := by
  unfold Core.reserveSlot
  split <;> rfl

theorem Core.releaseSlot_votes (core : Core) (slot : ℕ) :
    (core.releaseSlot slot).votes = core.votes := by
  unfold Core.releaseSlot
  split <;> rfl

theorem Replica.complete_ledger (core : Core) (call : Pending) :
    (Replica.complete core call).ledger = core.ledger := by
  obtain ⟨_, _, _, _, hcomplete⟩ := Replica.complete_eq core call
  rw [hcomplete]
  rfl

namespace Pending

/-- The call is a record that has its answer. -/
def answers : Pending → Bool
  | record _ _ _ => true
  | _ => false

end Pending

namespace Action

/-- The section neither votes, installs, compacts nor crashes. -/
def quiet : Action → Bool
  | record _ _ | install _ _ | compactBegin _ _ | compactCommit | compactFinish | crash => false
  | _ => true

end Action

namespace Replica

variable {codec : Codec} {replica next : Replica} {action : Action}

/-- What a quiet section does to the calls in flight. -/
structure Quiet (codec : Codec) (replica next : Replica) (action : Action) : Prop where
  ledger : next.core.ledger = replica.core.ledger
  compaction : next.compaction = replica.compaction
  admitted : ∀ {request}, request ∈ next.admitted →
    request ∈ replica.admitted ∨ ∃ admission, action = .admitRequest request admission
  checked : ∀ {decision configID}, (decision, configID) ∈ next.checked →
    (decision, configID) ∈ replica.checked ∨
      action = .check decision ∧ replica.core.acceptCheck codec decision = .ok configID
  pending : ∀ {call flushed}, (call, flushed) ∈ next.pending → call.answers = true →
    ∃ flushed', (call, flushed') ∈ replica.pending

/-- A section that changes the core only within its ledger, and at most starts to
wait for a sync, is quiet. -/
theorem Quiet.of_core {core : Core} {calls : List (Pending × Bool)}
    (hbook : core.ledger = replica.core.ledger)
    (hcalls : ∀ {call flushed}, (call, flushed) ∈ calls → call.answers = true →
      ∃ flushed', (call, flushed') ∈ replica.pending) :
    Quiet codec replica { replica with core, pending := calls } action :=
  ⟨hbook, rfl, .inl, .inl, hcalls⟩

theorem wait_pending {call : Pending} (hcall : call.answers = false) {call' : Pending}
    {flushed : Bool} (hmem : (call', flushed) ∈ replica.wait call)
    (hsaid : call'.answers = true) : ∃ flushed', (call', flushed') ∈ replica.pending := by
  rcases List.mem_append.mp hmem with hmem | hmem
  · exact ⟨flushed, hmem⟩
  · obtain ⟨rfl, -⟩ := Prod.mk.inj (List.mem_singleton.mp hmem)
    rw [hcall] at hsaid
    cases hsaid

theorem step_quiet (hquiet : action.quiet = true) (hstep : replica.step codec action = some next) :
    Quiet codec replica next action := by
  have hkeep : ∀ {call : Pending} {flushed : Bool}, (call, flushed) ∈ replica.pending →
      call.answers = true → ∃ flushed', (call, flushed') ∈ replica.pending :=
    fun hmem _ => ⟨_, hmem⟩
  cases step_performs hstep with
  | stageValue hstage =>
    exact .of_core (Core.stageValueLocked_ledger (Core.stageValue_eq_ok hstage).2) hkeep
  | storeValue hstage =>
    exact .of_core (Core.stageValueLocked_ledger (Core.stageValue_eq_ok hstage).2)
      (wait_pending rfl)
  | admitRequest =>
    refine ⟨rfl, rfl, ?_, .inl, hkeep⟩
    intro other hother
    rcases List.mem_cons.mp hother with rfl | hother
    · exact .inr ⟨_, rfl⟩
    · exact .inl hother
  | stage _ hstage => exact .of_core (Core.recordStage_ledger hstage) hkeep
  | check hcheck =>
    refine ⟨rfl, rfl, .inl, ?_, hkeep⟩
    intro other otherID hother
    rcases List.mem_cons.mp hother with heq | hother
    · obtain ⟨rfl, rfl⟩ := Prod.mk.inj heq
      exact .inr ⟨rfl, hcheck⟩
    · exact .inl hother
  | logDecision hdec => exact .of_core (Core.logDecision_marks hdec).ledger hkeep
  | @ensureDurable slot _ _ hadd =>
    have hbook := (Core.ensureDurableAppend_marks codec replica.core slot).ledger
    rw [hadd] at hbook
    exact .of_core hbook (wait_pending rfl)
  | @ensured slot _ _ hadd =>
    have hbook := (Core.ensureDurableAppend_marks codec replica.core slot).ledger
    rw [hadd] at hbook
    exact .of_core hbook hkeep
  | prepare _ hmade => exact .of_core (Core.prepareAppend_ledger hmade) (wait_pending rfl)
  | sync =>
    refine .of_core rfl ?_
    intro call flushed hmem _
    obtain ⟨⟨call', flushed'⟩, hmem', heq⟩ := List.mem_map.mp hmem
    obtain ⟨rfl, -⟩ := Prod.mk.inj heq
    exact ⟨flushed', hmem'⟩
  | @finish _ call _ _ =>
    exact .of_core (complete_ledger replica.core call.1)
      fun hmem _ => ⟨_, List.mem_of_mem_eraseIdx hmem⟩
  | cancel => exact .of_core rfl fun hmem _ => ⟨_, List.mem_of_mem_eraseIdx hmem⟩
  | record | install | compactBegin | compactCommit | compactFinish | crash => cases hquiet

end Replica

end Rhiza.QuePaxa
