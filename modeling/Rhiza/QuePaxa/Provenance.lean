import Rhiza.QuePaxa.Promises
import Rhiza.QuePaxa.Restart

/-! # Where certificates come from

Every decision that a node holds, hands on or has in its log was concluded from
replies that the recorders it names have really given, and a recorder that has
replied for a slot has something of that slot, or of a later one, in its synced log.
Crashes and compactions do not change this.
-/

namespace Rhiza.QuePaxa

open Foundations

/-- Everybody whom the certificate names has replied for its slot. -/
def Decision.Backed (replied : ℕ → NodeID → Prop) (decision : Decision) : Prop :=
  ∀ summary ∈ decision.summaries, replied decision.slot summary.recorderID

variable {replied : ℕ → NodeID → Prop} {decision : Decision}

theorem Decision.Backed.mono {replied' : ℕ → NodeID → Prop} (hbacked : decision.Backed replied)
    (hmono : ∀ {slot node}, replied slot node → replied' slot node) : decision.Backed replied' :=
  fun summary hsum => hmono (hbacked summary hsum)

/-- Certificates keep the recorders of a decision. -/
theorem Decision.Backed.installed
    (hbacked : decision.Backed replied) {slot configID : ℕ} {hash : ValueHash} {value : Bytes} :
    (DecidedValue.mk slot hash value (encodeCertificate configID decision)).decision.Backed
      replied := by
  intro summary hsum
  obtain ⟨original, horiginal, rfl⟩ := List.mem_map.mp hsum
  exact hbacked original horiginal

namespace Core

variable {codec : Codec} {core next : Core}

theorem recordApply_recorderID {request : RecordRequest} {eligible : Bool} {summary : Summary}
    {completion : Completion}
    (hjot : core.recordApply codec request eligible = .ok (next, summary, completion)) :
    summary.recorderID = core.nodeID := by
  rcases (recordApply_cases hjot).2 with ⟨decided, -, hsay⟩ | ⟨-, -, -, hsay⟩
  · unfold answerDecided at hsay
    split at hsay
    · cases hsay
      rfl
    · split at hsay <;> cases hsay <;> rfl
  · cases hsay
    rfl

end Core

namespace Replica

variable {codec : Codec} {replica next : Replica} {action : Action} {core : Core}
  {replied replied' : ℕ → NodeID → Prop}

/-- A waiting record was waiting before, or has just been answered. -/
theorem Performs.pending_record (hacts : replica.Performs codec action next)
    {request : RecordRequest} {summary : Summary} {completion : Completion} {flushed : Bool}
    (hmem : (.record request summary completion, flushed) ∈ next.pending) :
    (∃ flushed', (.record request summary completion, flushed') ∈ replica.pending) ∨
      ∃ eligible core, replica.core.recordApply codec request eligible =
        .ok (core, summary, completion) := by
  cases hacts with
  | record hin hjot =>
    rcases mem_wait hmem with hold | ⟨heq, -⟩
    · exact .inl ⟨_, hold⟩
    · cases heq
      exact .inr ⟨_, _, hjot⟩
  | storeValue | ensureDurable | prepare =>
    rcases mem_wait hmem with hold | ⟨heq, -⟩
    · exact .inl ⟨_, hold⟩
    · cases heq
  | sync =>
    obtain ⟨⟨call, flushed'⟩, hcall, heq⟩ := List.mem_map.mp hmem
    cases heq
    exact .inl ⟨_, hcall⟩
  | finish | cancel => exact .inl ⟨_, List.mem_of_mem_eraseIdx hmem⟩
  | crash => cases hmem
  | _ => exact .inl ⟨_, hmem⟩

/-- The replica answers under the name it was started with. -/
structure Signs (node : NodeID) (replica : Replica) : Prop where
  nodeID : replica.core.nodeID = node
  answers : ∀ {request summary completion flushed},
    (.record request summary completion, flushed) ∈ replica.pending → summary.recorderID = node

theorem Signs.performs {node : NodeID} (hrep : replica.Signs node)
    (hacts : replica.Performs codec action next) : next.Signs node := by
  refine ⟨(congrArg CoreOptions.nodeID hacts.options_eq).trans hrep.nodeID, ?_⟩
  intro request summary completion flushed hmem
  rcases hacts.pending_record hmem with ⟨flushed', hold⟩ | ⟨eligible, core, hjot⟩
  · exact hrep.answers hold
  · exact (Core.recordApply_recorderID hjot).trans hrep.nodeID

/-- Everything a replica has checked, installed or logged is backed. -/
structure Backed (replied : ℕ → NodeID → Prop) (replica : Replica) : Prop where
  accepted : ∀ {decision}, replica.Accepted decision → decision.Backed replied
  decided : ∀ {slot decided}, replica.core.decided.lookup slot = some decided →
    decided.decision.Backed replied
  markers : ∀ {value}, .decide value ∈ replica.core.wal.entries → value.decision.Backed replied

section Backed

variable (hrep : replica.Backed replied)
include hrep

theorem Backed.mono (hmono : ∀ {slot node}, replied slot node → replied' slot node) :
    replica.Backed replied' :=
  ⟨fun hyes => (hrep.accepted hyes).mono hmono, fun hget => (hrep.decided hget).mono hmono,
    fun hmem => (hrep.markers hmem).mono hmono⟩

theorem Backed.decided_changes (hdid : replica.Changes codec core) {slot : ℕ}
    {decided : DecidedValue} (hget : core.decided.lookup slot = some decided) :
    decided.decision.Backed replied := by
  rcases hdid.decided_cases with heq | ⟨decision, hyes, heq⟩ <;> rw [heq] at hget
  · exact hrep.decided hget
  · rcases Table.of_lookup_insert hget with ⟨-, rfl⟩ | hget
    · exact (hrep.accepted hyes).installed
    · exact hrep.decided hget

theorem Backed.changes (hdid : replica.Changes codec next.core)
    (hyes : ∀ {decision}, next.Accepted decision → decision.Backed replied) :
    next.Backed replied := by
  obtain ⟨added, hadded, hlist, -⟩ := hdid.adds
  refine ⟨hyes, hrep.decided_changes hdid, ?_⟩
  intro value hmem
  rw [hlist] at hmem
  rcases List.mem_append.mp hmem with hold | hnew
  · exact hrep.markers hold
  · cases hadded _ hnew with
    | decide hdec => exact hrep.decided hdec

/-- Sections keep certificates backed when the checked decisions are. -/
theorem Backed.performs (hrule : replica.Disciplined codec)
    (hacts : replica.Performs codec action next)
    (hdelivered : ∀ {decision}, action = .check decision → decision.Backed replied) :
    next.Backed replied := by
  have hdid := hacts.changes
  cases hacts with
  | @check decision configID hcheck =>
    refine hrep.changes (hdid (by simp) (by simp)) ?_
    rintro _ ⟨entry, hmem, rfl⟩
    rcases List.mem_cons.mp hmem with rfl | hmem
    · have hbacked := hdelivered rfl
      exact hbacked
    · exact hrep.accepted ⟨entry, hmem, rfl⟩
  | install =>
    refine hrep.changes (hdid (by simp) (by simp)) ?_
    rintro _ ⟨entry, hmem, rfl⟩
    exact hrep.accepted ⟨entry, List.mem_of_mem_erase hmem, rfl⟩
  | @compactCommit running core hgoing hbar hfirst hsave =>
    obtain ⟨-, verifier, rfl⟩ := Core.compactCommit_eq_ok hsave
    refine ⟨hrep.accepted, ?_, ?_⟩
    · intro slot decided hget
      exact hrep.decided (Table.lookup_restrict_some.mp hget).1
    · exact fun hmem => hrep.markers (mem_of_commitCompaction hmem (by simp) rfl)
  | @crash core hopen =>
    have hsub := replica.core.wal.synced_subset
    have hmend := Core.reopen_restored hrule.headed.append_left hopen
    refine ⟨?_, ?_, ?_⟩
    · rintro _ ⟨_, hmem, -⟩
      cases hmem
    · intro slot decided hget
      obtain ⟨value, hmem, -, rfl⟩ := hmend.decided_source hget
      have hbacked := hrep.markers (hsub hmem)
      exact hbacked
    · intro value hmem
      have hold := (Core.mem_reopen hopen hmem).resolve_right (by simp)
      exact hrep.markers (hsub hold)
  | _ => exact hrep.changes (hdid (by simp) (by simp)) hrep.accepted

end Backed

end Replica

namespace World

variable {codec : Codec} {world later : World} {slot : ℕ} {node : NodeID}

/-- The node has replied to a request for the slot. -/
def HasReplied (world : World) (slot : ℕ) (node : NodeID) : Prop :=
  ∃ request summary, (request, summary) ∈ world.replies ∧ request.slot = slot ∧
    summary.recorderID = node

theorem HasReplied.mono (hback : world.HasReplied slot node)
    (hsub : world.replies ⊆ later.replies) : later.HasReplied slot node := by
  obtain ⟨request, summary, hmem, hslot, hnode⟩ := hback
  exact ⟨request, summary, hsub hmem, hslot, hnode⟩

/-- What the replicas of a cluster keep. -/
structure Staffed (codec : Codec) (world : World) : Prop where
  kept : ∀ node, (world.replicas node).Kept codec
  signs : ∀ node, (world.replicas node).Signs node
  covered : ∀ {slot node}, world.HasReplied slot node → 0 < slot →
    (world.core node).wal.Covers slot

/-- Certificates of a cluster and the offers they come from. -/
structure Witnessed (codec : Codec) (world : World) : Prop extends world.Staffed codec where
  backed : ∀ node, (world.replicas node).Backed world.HasReplied
  decisions : ∀ {decision}, decision ∈ world.decisions → decision.Backed world.HasReplied
  offers : ∀ {id thread offer}, world.threads.lookup id = some thread →
    thread.waiting = some offer → offer.request.slot = thread.proposer.slot

variable {event : Event} {replica : Replica} {action : Action} {id : ℕ} {thread : Thread}
  {offer : Offer} {decision : Decision}

section Step

variable (hstep : world.step codec event = some later)
include hstep

theorem kept_step (hworld : ∀ node, (world.replicas node).Kept codec) (node : NodeID) :
    (later.replicas node).Kept codec := by
  refine step_forall (fun hrep hacts => hrep.performs hacts) ?_ hstep hworld node
  intro replica nextSlot vacant hrep
  have hrule := hrep.disciplined
  exact ⟨⟨hrule.accepted, hrule.filed, hrule.markers, hrule.headed,
    hrule.base_le, hrule.fenced⟩, hrep.chained, hrep.current,
    hrep.logged, hrep.durable, hrep.based, hrep.pending, hrep.exclusive⟩

/-- The synced log of a node covers what it covered before. -/
theorem covers_step (hlids : (world.core node).wal.Covers slot) :
    (later.core node).wal.Covers slot := by
  rcases step_replica hstep node with ⟨action, -, hrep⟩ | ⟨nextSlot, vacant, hsame⟩
  · exact (Replica.step_performs hrep).covers hlids
  · rwa [World.core, hsame]

theorem signs_step (hworld : ∀ node, (world.replicas node).Signs node) (node : NodeID) :
    (later.replicas node).Signs node := by
  rcases step_replica hstep node with ⟨action, -, hrep⟩ | ⟨nextSlot, vacant, hsame⟩
  · exact (hworld node).performs (Replica.step_performs hrep)
  · rw [hsame]
    exact ⟨(hworld node).nodeID, (hworld node).answers⟩

end Step

/-- An answer that the log upholds is covered by it. -/
theorem covers_of_upholds (hrep : replica.Kept codec)
    {answered : Option ISR} (hobey : replica.Upholds slot answered) (hslot : 0 < slot) :
    replica.core.wal.Covers slot := by
  rcases hobey with hle | ⟨value, hmem, rfl⟩ | ⟨register, -, hash, flag, hmem⟩
  · rcases hrep.based with hzero | ⟨base, hmem, hbase⟩
    · omega
    · exact ⟨_, hmem, decide_eq_true (hbase ▸ hle)⟩
  · exact ⟨_, hmem, decide_eq_true (le_refl _)⟩
  · exact ⟨_, hmem, decide_eq_true (le_refl _)⟩

/-- What a section of a node leaves of the rest of the cluster. -/
structure Performed (codec : Codec) (world : World) (node : NodeID) (action : Action)
    (replica : Replica) (later : World) : Prop where
  delivers : world.delivers node action = true
  step : (world.replicas node).step codec action = some replica
  replicas : later.replicas = Function.update world.replicas node replica
  replies : later.replies = world.replies ++ newReplies (world.replicas node) action
  decisions : later.decisions = world.decisions
  threads : ∀ {id thread}, later.threads.lookup id = some thread →
    world.threads.lookup id = some thread

theorem perform_performed (hact : world.perform codec node action = some later) :
    ∃ replica, world.Performed codec node action replica later := by
  unfold perform at hact
  split at hact
  · rename_i hhand
    simp only [Option.bind_eq_bind, Option.bind_eq_some_iff] at hact
    obtain ⟨replica, hstep, hlater⟩ := hact
    refine ⟨replica, ?_⟩
    split at hlater
    · cases hlater
      exact ⟨hhand, hstep, rfl, rfl, rfl, fun hget => (lookup_surviving hget).1⟩
    · cases hlater
      exact ⟨hhand, hstep, rfl, rfl, rfl, id⟩
  · cases hact

/-- A new reply is upheld by the log of the replica that gave it. -/
theorem newReplies_upholds {next : Replica}
    (hrep : replica.Kept codec) (hstep : replica.step codec action = some next)
    {request : RecordRequest} {summary : Summary}
    (hmem : (request, summary) ∈ newReplies replica action) :
    ∃ answered, next.Upholds request.slot answered := by
  have hacts := Replica.step_performs hstep
  cases action with
  | finish index =>
    cases hacts with
    | @finish _ call hcall hlet =>
      simp only [newReplies, hcall] at hmem
      split at hmem
      · rename_i heq
        obtain ⟨rfl, rfl⟩ := Prod.mk.inj (List.mem_singleton.mp hmem)
        cases heq
        refine ⟨_, (hrep.upholds_of_released (List.mem_of_getElem? hcall) hlet).performs
          hrep (Replica.step_performs hstep)⟩
      · cases hmem
  | _ => cases hmem

theorem Staffed.step (hworld : world.Staffed codec)
    (hstep : world.step codec event = some later) : later.Staffed codec := by
  have hkept := kept_step hstep hworld.kept
  refine ⟨hkept, signs_step hstep hworld.signs, ?_⟩
  rintro slot node ⟨request, summary, hmem, rfl, rfl⟩ hslot
  by_cases hold : (request, summary) ∈ world.replies
  · exact covers_step hstep (hworld.covered ⟨request, summary, hold, rfl, rfl⟩ hslot)
  -- A reply that was not there before is that of a call that has just finished.
  cases event with
  | perform node action =>
    obtain ⟨replica, hacted⟩ := perform_performed hstep
    rw [hacted.replies] at hmem
    have hnew := (List.mem_append.mp hmem).resolve_left hold
    obtain ⟨completion, flushed, hpend⟩ := mem_newReplies hnew
    obtain rfl := (hworld.signs node).answers hpend
    obtain ⟨answered, hobey⟩ := newReplies_upholds (hworld.kept _) hacted.step hnew
    have hrep : later.replicas summary.recorderID = replica := by
      rw [hacted.replicas, Function.update_self]
    rw [World.core, hrep]
    exact covers_of_upholds (hrep ▸ hkept summary.recorderID) hobey hslot
  | reserve | release | start | send | adopt | serve | conclude | stop =>
    rw [(step_outside hstep fun _ _ => by simp).replies] at hmem
    exact absurd hmem hold

section Witnessed

variable (hworld : world.Witnessed codec)
include hworld

theorem Witnessed.backed_step (hstep : world.step codec event = some later)
    (hreply : world.replies ⊆ later.replies) (node : NodeID) :
    (later.replicas node).Backed later.HasReplied := by
  have hmono : ∀ {slot node}, world.HasReplied slot node → later.HasReplied slot node :=
    fun hback => hback.mono hreply
  have hnode := (hworld.backed node).mono hmono
  rcases step_replica hstep node with ⟨action, rfl, hrep⟩ | ⟨nextSlot, vacant, hsame⟩
  · refine hnode.performs (hworld.kept node).disciplined (Replica.step_performs hrep) ?_
    rintro decision rfl
    obtain ⟨replica, hacted⟩ := perform_performed hstep
    have hsent : decision ∈ world.decisions := of_decide_eq_true hacted.delivers
    exact (hworld.decisions hsent).mono hmono
  · rw [hsame]
    exact ⟨hnode.accepted, hnode.decided, hnode.markers⟩

/-- A concluded decision names the recorders of its offer that have replied. -/
theorem Witnessed.concluded {summaries : List Summary}
    (hjob : world.threads.lookup id = some thread) (hoffer : thread.waiting = some offer)
    (hpool : world.gathered offer summaries = true)
    (hwraps : Concludes thread.proposer summaries (.decide decision)) :
    decision.Backed world.HasReplied := by
  have hslot : decision.slot = thread.proposer.slot := by
    cases hwraps with
    | fast _ hpick | phase _ hpick => exact hpick.1
  have hperm : decision.summaries.Perm summaries := by
    cases hwraps with
    | fast _ hpick | phase _ hpick => exact hpick.2.2
  intro summary hsum
  obtain ⟨-, -, hreply⟩ := of_decide_eq_true hpool
  refine ⟨offer.request, summary, (hreply summary (hperm.subset hsum)).1, ?_, rfl⟩
  rw [hslot, hworld.offers hjob hoffer]

theorem Witnessed.decisions_step (hstep : world.step codec event = some later)
    (hmem : decision ∈ later.decisions) : decision.Backed world.HasReplied := by
  by_cases hold : decision ∈ world.decisions
  · exact hworld.decisions hold
  cases event with
  | perform =>
    obtain ⟨replica, hacted⟩ := perform_performed hstep
    rw [hacted.decisions] at hmem
    exact absurd hmem hold
  | adopt =>
    obtain ⟨thread, decided, -, hdec, rfl⟩ := adopt_eq_some hstep
    obtain rfl := List.mem_singleton.mp ((List.mem_append.mp hmem).resolve_left hold)
    exact (hworld.backed _).decided hdec
  | serve =>
    obtain ⟨decided, served, hdec, hcert, rfl⟩ := serve_eq_some hstep
    obtain rfl := List.mem_singleton.mp ((List.mem_append.mp hmem).resolve_left hold)
    simp only [Core.certifiedDecision, seq_eq_ok, Except.ok.injEq] at hcert
    obtain ⟨-, rfl⟩ := hcert
    have hbacked := (hworld.backed _).decided hdec
    exact hbacked
  | conclude =>
    obtain ⟨thread, offer, outcome, hjob, hoffer, hpool, hwraps, rfl⟩ := conclude_eq_some hstep
    cases outcome with
    | decide concluded =>
      obtain rfl := List.mem_singleton.mp ((List.mem_append.mp hmem).resolve_left hold)
      exact hworld.concluded hjob hoffer hpool hwraps
    | advance => exact absurd hmem hold
  | reserve =>
    simp only [World.step, World.reserve] at hstep
    split at hstep
    · cases hstep
      exact absurd hmem hold
    · cases hstep
  | start =>
    obtain ⟨-, -, _, _, -, -, rfl⟩ := start_eq_some hstep
    exact absurd hmem hold
  | send =>
    obtain ⟨_, _, _, -, -, -, -, rfl⟩ := send_eq_some hstep
    exact absurd hmem hold
  | release | stop =>
    cases hstep
    exact absurd hmem hold

theorem Witnessed.offers_step (hstep : world.step codec event = some later)
    (hget : later.threads.lookup id = some thread) (hoffer : thread.waiting = some offer) :
    offer.request.slot = thread.proposer.slot := by
  -- Threads that an event leaves alone keep their offers.
  have hkept : later.threads.lookup id = world.threads.lookup id →
      offer.request.slot = thread.proposer.slot := fun hsame =>
    hworld.offers (hsame.symm.trans hget) hoffer
  cases event with
  | perform =>
    obtain ⟨replica, hacted⟩ := perform_performed hstep
    exact hworld.offers (hacted.threads hget) hoffer
  | reserve =>
    simp only [World.step, World.reserve] at hstep
    split at hstep
    · cases hstep
      exact hkept rfl
    · cases hstep
  | release =>
    cases hstep
    exact hkept rfl
  | serve =>
    obtain ⟨_, _, -, -, rfl⟩ := serve_eq_some hstep
    exact hkept rfl
  | start =>
    obtain ⟨-, -, _, _, -, -, rfl⟩ := start_eq_some hstep
    rcases Table.of_lookup_insert hget with ⟨-, rfl⟩ | hget
    · cases hoffer
    · exact hworld.offers hget hoffer
  | send =>
    obtain ⟨before, request, recorders, -, -, -, hask, rfl⟩ := send_eq_some hstep
    rcases Table.of_lookup_insert hget with ⟨-, rfl⟩ | hget
    · cases hoffer
      exact (offer_eq_ok hask).1
    · exact hworld.offers hget hoffer
  | adopt =>
    obtain ⟨_, _, -, -, rfl⟩ := adopt_eq_some hstep
    have hget := (Table.of_lookup_erase hget).2
    exact hworld.offers hget hoffer
  | stop =>
    cases hstep
    have hget := (Table.of_lookup_erase hget).2
    exact hworld.offers hget hoffer
  | conclude =>
    obtain ⟨_, _, outcome, -, -, -, -, rfl⟩ := conclude_eq_some hstep
    cases outcome with
    | decide =>
      have hget := (Table.of_lookup_erase hget).2
      exact hworld.offers hget hoffer
    | advance =>
      rcases Table.of_lookup_insert hget with ⟨-, rfl⟩ | hget
      · cases hoffer
      · exact hworld.offers hget hoffer

end Witnessed

theorem step_replies_subset (hstep : world.step codec event = some later) :
    world.replies ⊆ later.replies := by
  cases event with
  | perform =>
    obtain ⟨replica, hacted⟩ := perform_performed hstep
    rw [hacted.replies]
    exact List.subset_append_left _ _
  | reserve | release | start | send | adopt | serve | conclude | stop =>
    exact (step_outside hstep fun _ _ => nofun).replies ▸ List.Subset.refl _

/-- Every event keeps certificates witnessed. -/
theorem Witnessed.step (hworld : world.Witnessed codec)
    (hstep : world.step codec event = some later) : later.Witnessed codec where
  toStaffed := hworld.toStaffed.step hstep
  backed := hworld.backed_step hstep (step_replies_subset hstep)
  decisions hmem := (hworld.decisions_step hstep hmem).mono fun hback =>
    hback.mono (step_replies_subset hstep)
  offers := hworld.offers_step hstep

theorem witnessed_initial (codec : Codec) (deployment : Deployment) :
    (initial deployment).Witnessed codec where
  kept _ := Replica.kept_newCore ..
  signs _ := ⟨rfl, nofun⟩
  covered := by
    rintro slot node ⟨request, summary, hmem, -⟩
    cases hmem
  backed _ := by
    refine ⟨?_, nofun, nofun⟩
    rintro _ ⟨_, hmem, -⟩
    cases hmem
  decisions := nofun
  offers := nofun

end World

end Rhiza.QuePaxa
