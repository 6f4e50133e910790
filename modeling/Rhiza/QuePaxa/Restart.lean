import Rhiza.QuePaxa.Agreement
import Rhiza.QuePaxa.Prefix

/-! # Fast offers across restarts

A restarted node has forgotten which slots it handed out. It does not serve before it
has recovered through everything its log knows of, so it cannot use the fast path of
a slot twice as long as its log knew of every slot that it had used the fast path for.
Nothing makes it so: an offer reaches the other recorders while the local record of
the same offer is still on its way to the log.
-/

namespace Rhiza.QuePaxa

open Foundations

namespace World

variable {codec : Codec} {world later : World} {event : Event} {node : NodeID}

/-- What the sections of a replica preserve and the allocator does not see holds at
every node. -/
theorem step_forall {holds : Replica → Prop}
    (hacts : ∀ {replica next : Replica} {action : Action}, holds replica →
      replica.Performs codec action next → holds next)
    (hallocate : ∀ {replica : Replica} {nextSlot : ℕ} {vacant : List ℕ}, holds replica →
      holds { replica with core := { replica.core with nextSlot, vacant } })
    (hstep : world.step codec event = some later)
    (hworld : ∀ node, holds (world.replicas node)) (node : NodeID) :
    holds (later.replicas node) := by
  rcases step_replica hstep node with ⟨action, -, hrep⟩ | ⟨nextSlot, vacant, hsame⟩
  · exact hacts (hworld node) (Replica.step_performs hrep)
  · rw [hsame]
    exact hallocate (hworld node)

theorem step_genesis {config : Cluster} (hstep : world.step codec event = some later)
    (hworld : ∀ node, (world.core node).Genesis config) (node : NodeID) :
    (later.core node).Genesis config := by
  rcases step_replica hstep node with ⟨action, -, hrep⟩ | ⟨nextSlot, vacant, hsame⟩
  · exact Replica.step_genesis (hworld node) hrep
  · rw [World.core, hsame]
    exact ⟨(hworld node).fixed, (hworld node).config_eq, (hworld node).history⟩

theorem disciplined_step (hstep : world.step codec event = some later)
    (hworld : ∀ node, (world.replicas node).Disciplined codec) (node : NodeID) :
    (later.replicas node).Disciplined codec := by
  refine step_forall (fun hrep hacts => hrep.performs hacts) ?_ hstep hworld node
  intro replica nextSlot vacant hrep
  exact ⟨hrep.accepted, hrep.filed, hrep.markers, hrep.headed, hrep.base_le, hrep.fenced⟩

theorem disciplined_initial (codec : Codec) (deployment : Deployment) (node : NodeID) :
    ((initial deployment).replicas node).Disciplined codec :=
  Replica.disciplined_newCore ..

theorem perform_crash (hact : world.perform codec node .crash = some later) :
    ∃ core, (world.core node).reopen codec = .ok core ∧
      later = { world with
        replicas := Function.update world.replicas node (Replica.opened core)
        target := Function.update world.target node core.recorderTip
        threads := world.threads.restrict fun id =>
          (world.threads.lookup id).all (·.proposer.node ≠ node)
        reserved := world.reserved.filter (·.1 ≠ node) } := by
  simp only [perform, delivers, if_true, Option.bind_eq_bind, Option.bind_eq_some_iff] at hact
  obtain ⟨replica, hstep, hlater⟩ := hact
  cases Replica.step_performs hstep with
  | crash hopen =>
    refine ⟨_, hopen, ?_⟩
    simpa [newAnswers, newReplies, Replica.opened] using hlater.symm

instance (request : RecordRequest) : Decidable (FastRequest request) :=
  inferInstanceAs (Decidable (_ ∧ _))

/-- A node crashes only when its synced log covers every slot for which it has sent a
fast offer. -/
def OffersCovered (world : World) (event : Event) : Prop :=
  ∀ sent ∈ world.requests, FastRequest sent.2 →
    event = .perform sent.2.proposal.proposerID .crash →
    (world.core sent.2.proposal.proposerID).wal.Covers sent.2.slot

instance (world : World) : DecidablePred world.OffersCovered := fun _ =>
  inferInstanceAs (Decidable (∀ sent ∈ world.requests, _))

/-- The threads that a crash of the node leaves. -/
theorem lookup_surviving {id : ℕ} {thread : Thread}
    (hget : (world.threads.restrict fun id =>
      (world.threads.lookup id).all (·.proposer.node ≠ node)).lookup id = some thread) :
    world.threads.lookup id = some thread ∧ thread.proposer.node ≠ node := by
  rw [Table.lookup_restrict] at hget
  split at hget
  · rename_i hkeep
    rw [hget] at hkeep
    exact ⟨hget, by simpa using hkeep⟩
  · cases hget

/-- A crash keeps the allocation facts when the log covers the fast offers of the node. -/
theorem Allocated.crash (hallot : world.Allocated) (hrule : (world.replicas node).Disciplined codec)
    (hspan : world.OffersCovered (.perform node .crash))
    (hact : world.perform codec node .crash = some later) : later.Allocated := by
  obtain ⟨core, hopen, rfl⟩ := perform_crash hact
  have hother : ∀ {other replica}, other ≠ node →
      World.core { world with replicas := Function.update world.replicas node replica } other =
        world.core other :=
    fun hne => congrArg Replica.core (Function.update_of_ne hne _ _)
  have hbook : ∀ {other slot}, (other, slot) ∈ world.reserved.filter (·.1 ≠ node) →
      (other, slot) ∈ world.reserved ∧ other ≠ node := by
    simp [List.mem_filter]
  refine ⟨hallot.reserved_nodup.filter _, ?_, ?_, ?_, ?_, ?_, ?_, ?_, hallot.request_unique⟩
  · intro other slot hmem
    obtain ⟨hold, hne⟩ := hbook hmem
    have hlt := hallot.reserved_lt hold
    rwa [← hother hne] at hlt
  · intro id thread hget
    exact hallot.four_le (lookup_surviving hget).1
  · intro id thread hget
    exact hallot.first_turn (lookup_surviving hget).1
  · intro id thread other slot hget hfast
    obtain ⟨hold, hne⟩ := lookup_surviving hget
    rw [hfast.2.1] at hne
    obtain ⟨hlt, hfree⟩ := hallot.thread_taken hold hfast
    rw [← hother hne] at hlt
    exact ⟨hlt, fun hmem => hfree (hbook hmem).1⟩
  · intro id id' thread thread' other slot hget hget'
    exact hallot.thread_unique (lookup_surviving hget).1 (lookup_surviving hget').1
  · intro recorder request hmem hfast
    obtain ⟨hspent, hfree⟩ := hallot.request_taken hmem hfast
    refine ⟨?_, fun hmem => hfree (hbook hmem).1⟩
    by_cases hnode : request.proposal.proposerID = node
    · -- The offers of the crashed node lie in the part that it recovers through.
      subst hnode
      have hlids := hspan _ hmem hfast rfl
      refine .inr ?_
      change request.slot ≤ Function.update world.target _ core.recorderTip _
      rw [Function.update_self]
      exact hrule.le_recorderTip hopen hlids
    · rcases hspent with hlt | hle
      · rw [← hother hnode] at hlt
        exact .inl hlt
      · refine .inr ?_
        change request.slot ≤ Function.update world.target _ core.recorderTip _
        rwa [Function.update_of_ne hnode]
  · intro recorder request id thread hmem hfast hget
    exact hallot.request_thread hmem hfast (lookup_surviving hget).1

/-- The allocation facts over every event, restarts and compactions included. -/
theorem Allocated.step (hallot : world.Allocated)
    (hrule : ∀ node, (world.replicas node).Disciplined codec)
    (hspan : world.OffersCovered event) (hstep : world.step codec event = some later) :
    later.Allocated := by
  cases event with
  | perform node action =>
    by_cases hcrash : action = .crash
    · subst hcrash
      exact hallot.crash (hrule node) hspan hstep
    · exact hallot.perform hcrash hstep
  | reserve | release | start | send | adopt | serve | conclude | stop =>
    exact hallot.network hstep fun _ _ => nofun

/-- What runs with restarts keep. -/
structure Restarting (codec : Codec) (world : World) : Prop where
  disciplined : ∀ node, (world.replicas node).Disciplined codec
  allocated : world.Allocated

theorem restarting_run {deployment : Deployment} {events : List Event}
    (hspan : Guarded (step codec) OffersCovered (initial deployment) events)
    (hrun : (initial deployment).run codec events = some world) : world.Restarting codec := by
  have hstep : ∀ {world event later}, world.Restarting codec → world.OffersCovered event →
      World.step codec world event = some later → later.Restarting codec :=
    fun hworld hevent hstep => ⟨disciplined_step hstep hworld.disciplined,
      hworld.allocated.step hworld.disciplined hevent hstep⟩
  exact hspan.invariant hstep hrun
    ⟨disciplined_initial codec deployment, allocated_initial deployment⟩

/-- A leader never offers two highest-priority values for one slot in any run, crashes
included, in which a node crashes only when its synced log covers the slots of its
fast offers. -/
theorem fast_offers_agree (codec : Codec) (deployment : Deployment) (events : List Event)
    (hcovered : Guarded (step codec) OffersCovered (initial deployment) events) (world : World)
    (hrun : (initial deployment).run codec events = some world) (leader recorder recorder' : NodeID)
    (request request' : RecordRequest) (hsent : (recorder, request) ∈ world.requests)
    (hsent' : (recorder', request') ∈ world.requests) (hfast : FastRequest request)
    (hfast' : FastRequest request') (hslot : request.slot = request'.slot)
    (hleader : request.proposal.proposerID = leader)
    (hleader' : request'.proposal.proposerID = leader) :
    request.proposal.hash = request'.proposal.hash := by
  have hallocated := (restarting_run hcovered hrun).allocated
  have hrank := hallocated.request_unique hsent hsent' hfast hfast' hslot
    (hleader.trans hleader'.symm)
  exact congrArg Rank.hash hrank

/-- The leader of slot one offers a value, and a remote recorder has it before the
leader's own log; after a restart the leader is handed the slot again. -/
def forgetfulRun (first second : Bytes) : List Event :=
  [.reserve [65], .start 0 [65] 1 first true, .send 0 0] ++
    answerNow [66] (leaderRequest first) ++
    [.perform [65] .crash, .reserve [65], .start 1 [65] 1 second true, .send 1 0]

/-- Without the condition on crashes the leader offers two values. -/
theorem fast_offers_disagree : ∃ world,
    (initial trio).run (Codec.tabled []) (forgetfulRun [7] [8]) = some world ∧
      ([67], leaderRequest [7]) ∈ world.requests ∧ ([67], leaderRequest [8]) ∈ world.requests ∧
      FastRequest (leaderRequest [7]) ∧ FastRequest (leaderRequest [8]) ∧
      (leaderRequest [7]).slot = (leaderRequest [8]).slot ∧
      (leaderRequest [7]).proposal.proposerID = (leaderRequest [8]).proposal.proposerID ∧
      (leaderRequest [7]).proposal.hash ≠ (leaderRequest [8]).proposal.hash := by
  decide +kernel

/-- The leader's own record is synced before the crash, and a restarted leader goes on
with the next slot. -/
def rememberingRun (value : Bytes) : List Event :=
  [.reserve [65], .start 0 [65] 1 value true, .send 0 0] ++
    answerNow [65] (leaderRequest value) ++ answerNow [66] (leaderRequest value) ++
    [.conclude 0 [leaderSummary [65] value, leaderSummary [66] value] value,
      .perform [65] .crash] ++
    installNow [65] { leaderDecision value with
      summaries := [leaderSummary [65] value, leaderSummary [66] value] } 1 ++
    [.reserve [65], .start 1 [65] 2 value true, .send 1 0]

theorem fast_offers_agree_rememberingRun : ∃ world,
    (initial trio).run (Codec.tabled []) (rememberingRun [7]) = some world ∧
      ([66], leaderRequest [7]) ∈ world.requests ∧
      ∀ request, ([67], request) ∈ world.requests → FastRequest request → request.slot = 1 →
        request.proposal.proposerID = [65] → digest [7] = request.proposal.hash := by
  obtain ⟨world, hrun, hfirst⟩ : ∃ world,
      (initial trio).run (Codec.tabled []) (rememberingRun [7]) = some world ∧
        ([66], leaderRequest [7]) ∈ world.requests := by
    decide +kernel
  refine ⟨world, hrun, hfirst, fun request hsent hfast hslot hleader => ?_⟩
  exact fast_offers_agree (Codec.tabled []) trio (rememberingRun [7]) (by decide +kernel) world hrun
    [65] [66] [67] (leaderRequest [7]) request hfirst hsent (by decide) hfast hslot.symm rfl hleader

end World

end Rhiza.QuePaxa
