import Rhiza.QuePaxa.Provenance
import Rhiza.QuePaxa.ReadIndex

/-! # Reads see completed writes

A learner quorum and a read quorum meet. A member of the learner quorum that
acknowledged a decision has the slot in its synced log: it replied for the slot, or
it made the decision durable. Only the node that completed the write need not have
it there, so a read can miss the write when that node crashes and forgets the slot.
-/

namespace Rhiza.QuePaxa

open Foundations

namespace World

variable {codec : Codec} {world later : World} {node : NodeID} {slot : ℕ} {event : Event}

/-- The node has the slot in its prefix, or has to recover through it before it serves. -/
def Knows (world : World) (node : NodeID) (slot : ℕ) : Prop :=
  slot ≤ (world.core node).tip ∨ slot ≤ world.target node

section Step

variable (hstep : world.step codec event = some later)
include hstep

/-- Until a node crashes its tip does not move back. -/
theorem step_tip_le (hcrash : event ≠ .perform node .crash) :
    (world.core node).tip ≤ (later.core node).tip := by
  rcases step_replica hstep node with ⟨action, rfl, hrep⟩ | ⟨nextSlot, vacant, hsame⟩
  · exact Replica.step_tip_le (fun heq => hcrash (heq ▸ rfl)) hrep
  · rw [World.core, World.core, hsame]
    exact le_refl _

theorem step_target (hcrash : event ≠ .perform node .crash) :
    later.target node = world.target node := by
  cases event with
  | perform other action =>
    by_cases haction : action = .crash
    · subst haction
      obtain ⟨core, -, rfl⟩ := perform_crash hstep
      refine Function.update_of_ne ?_ _ _
      rintro rfl
      exact hcrash rfl
    · obtain ⟨-, replica, -, rfl⟩ := perform_eq_some hstep haction
      rfl
  | _ => exact congrFun (step_outside hstep fun _ _ => by simp).target node

end Step

/-- A node goes on knowing a slot when its synced log covers the slot at a crash. -/
theorem Knows.step (hknows : world.Knows node slot) (hworld : world.Witnessed codec)
    (hstep : world.step codec event = some later)
    (hlids : event = .perform node .crash → (world.core node).wal.Covers slot) :
    later.Knows node slot := by
  by_cases hcrash : event = .perform node .crash
  · have hspan := hlids hcrash
    subst hcrash
    obtain ⟨core, hopen, rfl⟩ := perform_crash hstep
    refine .inr ?_
    change slot ≤ Function.update world.target node core.recorderTip node
    rw [Function.update_self]
    exact (hworld.kept node).disciplined.le_recorderTip hopen hspan
  · rcases hknows with htip | htarget
    · exact .inl (htip.trans (step_tip_le hstep hcrash))
    · exact .inr (htarget.trans (step_target hstep hcrash).ge)

end World

namespace Service

variable {codec : Codec} {service next : Service} {call : Call} {node : NodeID} {slot : ℕ}

/-- The calls of a service, with what they check and what they leave. -/
inductive Steps (codec : Codec) (service : Service) : Call → Service → Prop
  | network {event world} (hworld : service.world.step codec event = some world)
      (hcrash : ∀ node, event ≠ .perform node .crash) :
      Steps codec service (.network event) { service with world }
  | crash {node world} (hworld : service.world.step codec (.perform node .crash) = some world) :
      Steps codec service (.network (.perform node .crash)) { service.interrupt node with world }
  | completeDecision {id node slot marked decision world}
      (hpropose : (service.world.core node).mayPropose = true)
      (hmark : marked = service.world ∨
        service.world.step codec (.perform node (.logDecision slot)) = some marked)
      (hserve : marked.step codec (.serve node slot) = some world) :
      Steps codec service (.completeDecision id node slot)
        { service with world, completing := service.completing.insert id ⟨node, decision⟩ }
  | acknowledge {node decision} (hsent : decision ∈ service.world.decisions)
      (hnods : (service.world.core node).acknowledges decision = true) :
      Steps codec service (.acknowledge node decision)
        { service with learned := (node, decision) :: service.learned }
  | complete {id learners completing} (hget : service.completing.lookup id = some completing)
      (htip : completing.decision.slot ≤ (service.world.core completing.node).tip)
      (hmost : service.learnerQuorum completing learners = true) :
      Steps codec service (.complete id learners)
        { service with
          completing := service.completing.erase id
          completed := (completing.node, completing.decision.slot) :: service.completed }
  | readIndex {id node excluded} (hidle : service.reads.lookup id = none)
      (hserves : service.serves node = true) :
      Steps codec service (.readIndex id node excluded)
        { service with
          reads := service.reads.insert id ⟨node, (service.world.core node).learnerCluster
            ((service.world.core node).tip + 1), excluded, []⟩ }
  | readTip {id member read} (hread : service.reads.lookup id = some read)
      (hseat : member ∈ read.cluster.memberIDs) (hfresh : member ∉ read.observed.map Prod.fst)
      (hserves : member = read.node ∨ service.serves member = true) :
      Steps codec service (.readTip id member)
        { service with
          reads := service.reads.insert id { read with
            observed := (member, (service.world.core member).tip) :: read.observed } }
  | returnRead {id} :
      Steps codec service (.returnRead id) { service with reads := service.reads.erase id }

theorem step_steps (hstep : service.step codec call = some next) :
    service.Steps codec call next := by
  cases call <;>
    simp only [step, network, completeDecision, acknowledge, complete, readIndex, readTip,
      Option.bind_eq_bind, Option.bind_eq_some_iff, Option.ite_none_right_eq_some,
      Option.some.injEq] at hstep
  case network =>
    obtain ⟨world, hworld, hnext⟩ := hstep
    split at hnext <;> cases hnext
    · exact .crash hworld
    · rename_i hcrash
      exact .network hworld hcrash
  case completeDecision =>
    obtain ⟨hguard, marked, hmark, decided, -, decision, -, world, hserve, rfl⟩ := hstep
    refine .completeDecision hguard.1 ?_ hserve
    unfold appendMarker at hmark
    dsimp only at hmark
    split at hmark
    · split at hmark <;> cases hmark
      exact .inl rfl
    · exact .inr hmark
  case acknowledge =>
    obtain ⟨hguard, rfl⟩ := hstep
    exact .acknowledge hguard.1 hguard.2
  case complete =>
    obtain ⟨completing, hget, hguard, rfl⟩ := hstep
    exact .complete hget hguard.1 hguard.2
  case readIndex =>
    obtain ⟨hguard, rfl⟩ := hstep
    exact .readIndex hguard.1 hguard.2.1
  case readTip =>
    obtain ⟨read, hread, hguard, rfl⟩ := hstep
    exact .readTip hread hguard.1 hguard.2.2.1 hguard.2.2.2.2
  case returnRead =>
    subst hstep
    exact .returnRead

section Steps

variable (hsteps : service.Steps codec call next)
include hsteps

/-- What the events of a call preserve, the call preserves. Only a crash of the network
is a crash. -/
theorem Steps.preserves (holds : World → Prop)
    (hevent : ∀ {world event later}, World.step codec world event = some later →
      (∀ node, event = .perform node .crash → call = .network event ∧ world = service.world) →
      holds world → holds later)
    (hworld : holds service.world) : holds next.world := by
  cases hsteps with
  | network hnext hcrash => exact hevent hnext (fun node heq => absurd heq (hcrash node)) hworld
  | crash hnext => exact hevent hnext (fun _ _ => ⟨rfl, rfl⟩) hworld
  | completeDecision hpropose hmark hserve =>
    rcases hmark with rfl | hmark
    · exact hevent hserve (fun _ => nofun) hworld
    · exact hevent hserve (fun _ => nofun) (hevent hmark (fun _ => nofun) hworld)
  | _ => exact hworld

theorem Steps.learned_subset :
    service.learned ⊆ next.learned := by
  cases hsteps with
  | acknowledge => exact List.subset_cons_self _ _
  | _ => exact List.Subset.refl _

theorem Steps.completed_subset :
    service.completed ⊆ next.completed := by
  cases hsteps with
  | complete => exact List.subset_cons_self _ _
  | _ => exact List.Subset.refl _

end Steps

/-- A member of a learner quorum: it acknowledged a decision for the slot, or it
completed the write. -/
def Informed (service : Service) (slot : ℕ) (node : NodeID) : Prop :=
  (∃ decision, (node, decision) ∈ service.learned ∧ decision.slot = slot) ∨
    (node, slot) ∈ service.completed

/-- A majority of informed members. -/
structure InformedQuorum (config : Cluster) (service : Service) (slot : ℕ)
    (members : List NodeID) : Prop where
  nodup : members.Nodup
  subset : members ⊆ config.memberIDs
  majority : config.memberIDs.length / 2 + 1 ≤ members.length
  informed : ∀ member ∈ members, service.Informed slot member

theorem Informed.mono (htold : service.Informed slot node)
    (hknew : service.learned ⊆ next.learned) (hended : service.completed ⊆ next.completed) :
    next.Informed slot node := by
  rcases htold with ⟨decision, hmem, hslot⟩ | hmem
  · exact .inl ⟨decision, hknew hmem, hslot⟩
  · exact .inr (hended hmem)

theorem InformedQuorum.mono {config : Cluster} {members : List NodeID}
    (hmost : service.InformedQuorum config slot members)
    (hknew : service.learned ⊆ next.learned) (hended : service.completed ⊆ next.completed) :
    next.InformedQuorum config slot members :=
  ⟨hmost.nodup, hmost.subset, hmost.majority,
    fun member hseat => (hmost.informed member hseat).mono hknew hended⟩

/-- What a run of the service keeps. -/
structure Linear (codec : Codec) (config : Cluster) (service : Service) : Prop where
  witnessed : service.world.Witnessed codec
  genesis : ∀ node, (service.world.core node).Genesis config
  learned : ∀ {node decision}, (node, decision) ∈ service.learned → 0 < decision.slot →
    (service.world.core node).wal.Covers decision.slot
  knows : ∀ {slot node}, service.Informed slot node → service.world.Knows node slot
  completing : ∀ {id call}, service.completing.lookup id = some call →
    call.node ∈ config.memberIDs
  completed : ∀ {node slot}, (node, slot) ∈ service.completed →
    ∃ members, service.InformedQuorum config slot members

/-- A node crashes only when its synced log covers the slots of the writes that it
has completed. -/
def CompletedCovered (service : Service) (call : Call) : Prop :=
  ∀ write ∈ service.completed, call = .network (.perform write.1 .crash) →
    (service.world.core write.1).wal.Covers write.2

instance (service : Service) : DecidablePred service.CompletedCovered := fun _ =>
  inferInstanceAs (Decidable (∀ write ∈ service.completed, _))

variable {config : Cluster}

section Linear

variable (hduty : service.Linear codec config)
include hduty

theorem Linear.learnerCluster_eq (node : NodeID) (slot : ℕ) :
    (service.world.core node).learnerCluster slot = config := by
  have hnode := hduty.genesis node
  simp [Core.learnerCluster, hnode.fixed, hnode.config_eq]

/-- Only a member gets past the checks of a proposal. -/
theorem Linear.mem_of_mayPropose (hpropose : (service.world.core node).mayPropose = true) :
    node ∈ config.memberIDs := by
  have hgenesis := hduty.genesis node
  have hnode : (service.world.core node).nodeID = node := (hduty.witnessed.signs node).nodeID
  simp only [Core.mayPropose, Bool.and_eq_true, Bool.or_eq_true, hgenesis.config_eq, hnode,
    List.contains_iff_mem] at hpropose
  obtain ⟨⟨-, hvoter⟩, hlearner | hseat⟩ := hpropose
  · -- A learner has to be a voter, and a voter is found among the members.
    have hvotes : (service.world.core node).isVoter = true := by simpa [hlearner] using hvoter
    simp only [Core.isVoter, Core.voterForCluster, hgenesis.clusterForSlot_eq,
      Bool.and_eq_true] at hvotes
    obtain ⟨-, -, hfound⟩ := hvotes
    split at hfound
    · cases hfound
    · rename_i member hfind
      have hid := List.find?_some hfind
      refine List.mem_map.mpr ⟨member, List.mem_of_find?_eq_some hfind, ?_⟩
      simpa [hnode] using hid
  · exact hseat

/-- An informed node goes on knowing the slot. -/
theorem Linear.knows_step (hspan : service.CompletedCovered call)
    (hsteps : service.Steps codec call next) (htold : service.Informed slot node) :
    next.world.Knows node slot := by
  rcases Nat.eq_zero_or_pos slot with rfl | hpos
  · exact .inl (Nat.zero_le _)
  have hworld : next.world.Witnessed codec ∧ next.world.Knows node slot := by
    refine hsteps.preserves (fun world => world.Witnessed codec ∧ world.Knows node slot) ?_
      ⟨hduty.witnessed, hduty.knows htold⟩
    rintro world event later hevent hcrash ⟨hwitnessed, hknows⟩
    refine ⟨hwitnessed.step hevent, hknows.step hwitnessed hevent fun heq => ?_⟩
    obtain ⟨rfl, rfl⟩ := hcrash node heq
    subst heq
    rcases htold with ⟨decision, hmem, rfl⟩ | hmem
    · exact hduty.learned hmem hpos
    · exact hspan _ hmem rfl
  exact hworld.2

/-- A peer that may acknowledge a decision has its slot in the synced log. -/
theorem Linear.covers_of_acknowledges {decision : Decision}
    (hsent : decision ∈ service.world.decisions)
    (hnods : (service.world.core node).acknowledges decision = true)
    (hslot : 0 < decision.slot) : (service.world.core node).wal.Covers decision.slot := by
  have hkept := hduty.witnessed.kept node
  have hnode : (service.world.core node).nodeID = node := (hduty.witnessed.signs node).nodeID
  simp only [Core.acknowledges, Bool.and_eq_true, Bool.or_eq_true, decide_eq_true_eq, hnode]
    at hnods
  rcases hnods.2 with hfloor | ⟨-, hnamed | hfix⟩
  · have hobey : (service.world.replicas node).Upholds decision.slot none := .inl hfloor
    exact World.covers_of_upholds hkept hobey hslot
  · -- A named peer has replied for the slot.
    obtain ⟨summary, hsum, hpeer⟩ := List.any_eq_true.mp hnamed
    have hreply := hduty.witnessed.decisions hsent summary hsum
    rw [of_decide_eq_true hpeer] at hreply
    exact hduty.witnessed.covered hreply hslot
  · have hmark := hkept.durable hfix
    have hobey : (service.world.replicas node).Upholds decision.slot none := .inr (.inl hmark)
    exact World.covers_of_upholds hkept hobey hslot

/-- A call keeps the invariant when it accounts for the acknowledgements and writes
that it adds. -/
theorem Linear.of_steps (hspan : service.CompletedCovered call)
    (hsteps : service.Steps codec call next)
    (hknew : ∀ {node decision}, (node, decision) ∈ next.learned →
      (node, decision) ∈ service.learned ∨
      (0 < decision.slot → (next.world.core node).wal.Covers decision.slot) ∧
        next.world.Knows node decision.slot)
    (hcompleting : ∀ {id call}, next.completing.lookup id = some call →
      call.node ∈ config.memberIDs)
    (hended : ∀ {node slot}, (node, slot) ∈ next.completed → (node, slot) ∈ service.completed ∨
      next.world.Knows node slot ∧ ∃ members, next.InformedQuorum config slot members) :
    next.Linear codec config where
  witnessed := hsteps.preserves (World.Witnessed codec) (fun hevent _ hworld => hworld.step hevent)
    hduty.witnessed
  genesis := hsteps.preserves (fun world => ∀ node, (world.core node).Genesis config)
    (fun hevent _ => World.step_genesis hevent) hduty.genesis
  learned := by
    intro node decision hmem hslot
    rcases hknew hmem with hold | ⟨hlids, -⟩
    · exact hsteps.preserves (fun world => (world.core node).wal.Covers decision.slot)
        (fun hevent _ => World.covers_step hevent) (hduty.learned hold hslot)
    · exact hlids hslot
  knows := by
    rintro slot node (⟨decision, hmem, rfl⟩ | hmem)
    · rcases hknew hmem with hold | ⟨-, hknows⟩
      · exact hduty.knows_step hspan hsteps (.inl ⟨decision, hold, rfl⟩)
      · exact hknows
    · rcases hended hmem with hold | ⟨hknows, -⟩
      · exact hduty.knows_step hspan hsteps (.inr hold)
      · exact hknows
  completing := hcompleting
  completed := by
    intro node slot hmem
    rcases hended hmem with hold | ⟨-, hmost⟩
    · obtain ⟨members, hmost⟩ := hduty.completed hold
      exact ⟨members, hmost.mono hsteps.learned_subset hsteps.completed_subset⟩
    · exact hmost

/-- The local node and the acknowledging peers are a majority of informed members. -/
theorem Linear.informedQuorum {completing : Completing} {learners : List NodeID}
    (hseat : completing.node ∈ config.memberIDs)
    (hmost : service.learnerQuorum completing learners = true)
    (hknew : service.learned ⊆ next.learned)
    (hended : (completing.node, completing.decision.slot) ∈ next.completed) :
    ∃ members, next.InformedQuorum config completing.decision.slot members := by
  simp only [learnerQuorum, hduty.learnerCluster_eq] at hmost
  have hself : next.Informed completing.decision.slot completing.node := .inr hended
  rcases of_decide_eq_true hmost with hsingle | ⟨hnodup, hmajority, hlearners⟩
  · refine ⟨[completing.node], List.nodup_singleton _, ?_, ?_, ?_⟩
    · simpa using hseat
    · simp only [List.length_singleton]
      omega
    · simpa using hself
  · refine ⟨completing.node :: learners, List.nodup_cons.mpr ⟨?_, hnodup⟩, ?_, ?_, ?_⟩
    · exact fun hmem => (hlearners _ hmem).1 rfl
    · exact List.cons_subset.mpr ⟨hseat, fun learner hmem => (hlearners learner hmem).2.1⟩
    · rw [List.length_cons]
      omega
    · intro member hmem
      rcases List.mem_cons.mp hmem with rfl | hmem
      · exact hself
      · exact .inl ⟨completing.decision, hknew (hlearners member hmem).2.2, rfl⟩

/-- Every call keeps the invariant. -/
theorem Linear.steps (hspan : service.CompletedCovered call)
    (hsteps : service.Steps codec call next) : next.Linear codec config := by
  have hof := hduty.of_steps hspan hsteps
  cases hsteps with
  | crash =>
    refine hof .inl ?_ .inl
    intro id completing hget
    exact hduty.completing (Table.lookup_restrict_some.mp hget).1
  | @completeDecision id node slot marked decision world hpropose hmark hserve =>
    refine hof .inl ?_ .inl
    intro id' completing hget
    rcases Table.of_lookup_insert hget with ⟨-, rfl⟩ | hget
    · exact hduty.mem_of_mayPropose hpropose
    · exact hduty.completing hget
  | @acknowledge node decision hsent hnods =>
    refine hof ?_ hduty.completing .inl
    intro node' decision' hmem
    rcases List.mem_cons.mp hmem with heq | hold
    · cases heq
      have htip := (Bool.and_eq_true_iff.mp hnods).1
      exact .inr ⟨hduty.covers_of_acknowledges hsent hnods, .inl (of_decide_eq_true htip)⟩
    · exact .inl hold
  | complete hget htip hmost =>
    refine hof .inl ?_ ?_
    · intro id' completing' hget'
      have hget' := (Table.of_lookup_erase hget').2
      exact hduty.completing hget'
    · intro node slot hmem
      rcases List.mem_cons.mp hmem with heq | hold
      · cases heq
        refine .inr ⟨.inl htip, ?_⟩
        exact hduty.informedQuorum (hduty.completing hget) hmost
          (List.Subset.refl _) List.mem_cons_self
      · exact .inl hold
  | _ => exact hof .inl hduty.completing .inl

end Linear

theorem linear_initial (codec : Codec) (deployment : World.Deployment)
    (hfixed : deployment.reconfigEnabled = false) :
    (initial deployment).Linear codec deployment.config where
  witnessed := World.witnessed_initial codec deployment
  genesis _ := ⟨hfixed, rfl, rfl⟩
  learned := nofun
  knows := by
    rintro slot node (⟨_, hmem, -⟩ | hmem) <;> cases hmem
  completing := nofun
  completed := nofun

/-- A node that has recovered stays so until it crashes. -/
theorem Steps.ready (hsteps : service.Steps codec call next)
    (hcrash : call ≠ .network (.perform node .crash))
    (hready : service.world.target node ≤ (service.world.core node).tip) :
    next.world.target node ≤ (next.world.core node).tip := by
  refine hsteps.preserves (fun world => world.target node ≤ (world.core node).tip) ?_ hready
  intro world event later hevent hnetwork hle
  have hne : event ≠ .perform node .crash := fun heq => hcrash (heq ▸ (hnetwork node heq).1)
  rw [World.step_target hevent hne]
  exact hle.trans (World.step_tip_le hevent hne)

/-- A read that asks members of the cluster, and got the slot from every listed one
that has answered. -/
structure ReadSound (config : Cluster) (slot : ℕ) (members : List NodeID) (world : World)
    (read : ReadCall) : Prop where
  cluster : read.cluster = config
  ready : world.target read.node ≤ (world.core read.node).tip
  nodup : (read.observed.map Prod.fst).Nodup
  subset : read.observed.map Prod.fst ⊆ config.memberIDs
  observed : ∀ member ∈ members, ∀ tip, (member, tip) ∈ read.observed → slot ≤ tip

/-- The reads under an identifier that started after the members were informed. -/
structure Reading (codec : Codec) (config : Cluster) (id slot : ℕ) (members : List NodeID)
    (service : Service) : Prop extends service.Linear codec config where
  quorum : service.InformedQuorum config slot members
  sound : ∀ {read}, service.reads.lookup id = some read →
    ReadSound config slot members service.world read

variable {id : ℕ} {members : List NodeID}

section Reading

variable (hduty : service.Reading codec config id slot members)
include hduty

/-- The tip of an informed node that has recovered is at the slot. -/
theorem Reading.le_tip {member : NodeID} (hseat : member ∈ members)
    (hready : service.world.target member ≤ (service.world.core member).tip) :
    slot ≤ (service.world.core member).tip := by
  rcases hduty.knows (hduty.quorum.informed member hseat) with htip | htarget
  · exact htip
  · exact htarget.trans hready

/-- Every call keeps what a read has seen. -/
theorem Reading.steps (hspan : service.CompletedCovered call)
    (hsteps : service.Steps codec call next) : next.Reading codec config id slot members := by
  refine ⟨hduty.toLinear.steps hspan hsteps,
    hduty.quorum.mono hsteps.learned_subset hsteps.completed_subset, ?_⟩
  -- A read that was running before goes on unless its node crashes.
  have hkept : ∀ {read}, service.reads.lookup id = some read →
      call ≠ .network (.perform read.node .crash) →
      ReadSound config slot members next.world read := by
    intro read hread hcrash
    have hsound := hduty.sound hread
    exact ⟨hsound.cluster, hsteps.ready hcrash hsound.ready, hsound.nodup, hsound.subset,
      hsound.observed⟩
  intro read hread
  cases hsteps with
  | network hworld hcrash =>
    refine hkept hread ?_
    rintro ⟨⟩
    exact hcrash _ rfl
  | crash =>
    obtain ⟨hget, hkeep⟩ := Table.lookup_restrict_some.mp hread
    refine hkept hget ?_
    rintro ⟨⟩
    simp [hget] at hkeep
  | returnRead =>
    have hread := (Table.of_lookup_erase hread).2
    exact hkept hread nofun
  | @readIndex id' node excluded hidle hserves =>
    rcases Table.of_lookup_insert hread with ⟨-, rfl⟩ | hread
    · have htip := of_decide_eq_true (Bool.and_eq_true_iff.mp hserves).2
      exact ⟨hduty.learnerCluster_eq _ _, htip, List.nodup_nil, nofun, nofun⟩
    · exact hkept hread nofun
  | @readTip id' member before hpre hseat hfresh hserves =>
    rw [Table.lookup_insert_eq] at hread
    split at hread
    · rename_i heq
      subst heq
      cases hread
      have hsound := hduty.sound hpre
      have htip : service.world.target member ≤ (service.world.core member).tip := by
        rcases hserves with rfl | hserves
        · exact hsound.ready
        · exact of_decide_eq_true (Bool.and_eq_true_iff.mp hserves).2
      refine ⟨hsound.cluster, hsound.ready, ?_, ?_, ?_⟩
      · exact List.nodup_cons.mpr ⟨hfresh, hsound.nodup⟩
      · exact List.cons_subset.mpr ⟨hsound.cluster ▸ hseat, hsound.subset⟩
      · intro other hother tip hmem
        rcases List.mem_cons.mp hmem with heq | hold
        · cases heq
          exact hduty.le_tip hother htip
        · exact hsound.observed other hother tip hold
    · exact hkept hread nofun
  | completeDecision | acknowledge | complete => exact hkept hread nofun

/-- The result of a read is at least what a member of the informed quorum reported. -/
theorem Reading.le_result {read : ReadCall} (hread : service.reads.lookup id = some read)
    {tip : ℕ} (hout : read.result = some tip) : slot ≤ tip := by
  have hsound := hduty.sound hread
  unfold ReadCall.result at hout
  split at hout
  · rename_i hlen
    cases hout
    have hlen : config.memberIDs.length / 2 + 1 ≤ (read.observed.map Prod.fst).length := by
      rw [List.length_map, hlen, hsound.cluster, Cluster.quorumSize, Cluster.memberIDs,
        List.length_map]
    -- The two majorities meet in a member that was informed before it was asked.
    obtain ⟨member, htold, hasked⟩ :=
      (QuorumSystem.majority config.memberIDs.toFinset).meet
        (QuorumSystem.majority_of_list hduty.quorum.nodup hduty.quorum.subset hduty.quorum.majority)
        (QuorumSystem.majority_of_list hsound.nodup hsound.subset hlen)
    rw [List.mem_toFinset] at htold hasked
    obtain ⟨⟨_, reported⟩, hobserved, rfl⟩ := List.mem_map.mp hasked
    have hle := hsound.observed _ htold reported hobserved
    exact hle.trans (le_foldl_max (.inr (List.mem_map_of_mem hobserved)))
  · cases hout

end Reading

theorem linear_run {deployment : World.Deployment} (hfixed : deployment.reconfigEnabled = false)
    {calls : List Call} (hspan : Guarded (step codec) CompletedCovered (initial deployment) calls)
    (hrun : (initial deployment).run codec calls = some service) :
    service.Linear codec deployment.config := by
  have hstep : ∀ {service call next}, Linear codec deployment.config service →
      service.CompletedCovered call → Service.step codec service call = some next →
      Linear codec deployment.config next :=
    fun hduty hcall hstep => hduty.steps hcall (step_steps hstep)
  exact hspan.invariant hstep hrun (linear_initial codec deployment hfixed)

/-- Reads are linearizable in every run of a fixed cluster in which a node crashes only
when its synced log covers the slots of the writes that it has completed: a read that
starts after a write has completed returns at least the slot of the write. -/
theorem read_sees_completed (codec : Codec) (deployment : World.Deployment)
    (hfixed : deployment.reconfigEnabled = false) (before after : List Call) (id slot : ℕ)
    (writer node : NodeID) (excluded : Option NodeID)
    (hcovered : Guarded (step codec) CompletedCovered (initial deployment)
      (before ++ .readIndex id node excluded :: after))
    (service final : Service) (hbefore : (initial deployment).run codec before = some service)
    (hcompleted : (writer, slot) ∈ service.completed)
    (hafter : service.run codec (.readIndex id node excluded :: after) = some final)
    (read : ReadCall) (hread : final.reads.lookup id = some read) (tip : ℕ)
    (hresult : read.result = some tip) : slot ≤ tip := by
  have hstep : ∀ {members service call next},
      Reading codec deployment.config id slot members service → service.CompletedCovered call →
      Service.step codec service call = some next →
      Reading codec deployment.config id slot members next :=
    fun hservice hcall hstep => hservice.steps hcall (step_steps hstep)
  obtain ⟨hcoveredBefore, hcoveredAfter⟩ := (guarded_append hbefore).mp hcovered
  have hlinear := linear_run hfixed hcoveredBefore hbefore
  obtain ⟨members, hquorum⟩ := hlinear.completed hcompleted
  -- The identifier is free when the read starts.
  have hidle : service.reads.lookup id = none := by
    obtain ⟨started, hstart, -⟩ := runFrom_cons.mp hafter
    cases step_steps hstart with
    | readIndex hidle hserves => exact hidle
  have hservice : service.Reading codec deployment.config id slot members :=
    ⟨hlinear, hquorum, fun hlookup => absurd (hidle.symm.trans hlookup) nofun⟩
  have hfinal := hcoveredAfter.invariant hstep hafter hservice
  exact hfinal.le_result hread hresult

/-- The leader decides slot one on the answers of the other two voters. -/
def decidedWrite (value : Bytes) : List Event :=
  [.reserve [65], .start 0 [65] 1 value true, .send 0 0] ++
    World.answerNow [66] (World.leaderRequest value) ++
    World.answerNow [67] (World.leaderRequest value) ++
    [.conclude 0 [World.leaderSummary [66] value, World.leaderSummary [67] value] value] ++
    World.installNow [65] (World.leaderDecision value) 1

/-- The leader's write completes when one of the other voters has learned it. -/
def completedWrite (value : Bytes) : List Call :=
  (decidedWrite value).map .network ++ [.completeDecision 0 [65] 1] ++
    (World.installNow [66] { World.leaderDecision value with configID := 1 } 1).map .network ++
    [.acknowledge [66] { World.leaderDecision value with configID := 1 }, .complete 0 [[66]]]

/-- The third voter asks itself and the leader. -/
def readAtThird : List Call := [.readIndex 1 [67] none, .readTip 1 [67], .readTip 1 [65]]

/-- Without the condition on crashes a read misses a completed write: the leader crashes
before its marker is synced, and the third voter has not learned the decision. -/
theorem read_misses_completed : ∃ service final read,
    (initial World.trio).run (Codec.tabled [])
        (completedWrite [7] ++ [.network (.perform [65] .crash)]) = some service ∧
      ([65], 1) ∈ service.completed ∧
      service.run (Codec.tabled []) readAtThird = some final ∧
      final.reads.lookup 1 = some read ∧ read.result = some 0 := by
  obtain ⟨service, hbefore, hcompleted, final, hafter, read, hread⟩ : ∃ service,
      (initial World.trio).run (Codec.tabled [])
          (completedWrite [7] ++ [.network (.perform [65] .crash)]) = some service ∧
        ([65], 1) ∈ service.completed ∧
        ∃ final, service.run (Codec.tabled []) readAtThird = some final ∧
          ∃ read, final.reads.lookup 1 = some read ∧ read.result = some 0 := by
    decide +kernel
  exact ⟨service, final, read, hbefore, hcompleted, hafter, hread⟩

theorem read_sees_completed_syncedWrite : ∃ service final read tip,
    (initial World.trio).run (Codec.tabled []) (completedWrite [7] ++
        [.network (.perform [65] .sync), .network (.perform [65] .crash)]) = some service ∧
      service.run (Codec.tabled []) readAtThird = some final ∧
      final.reads.lookup 1 = some read ∧ read.result = some tip ∧ 1 ≤ tip := by
  obtain ⟨service, hbefore, hcompleted, final, hafter, read, hlookup, tip, hresult, -⟩ :
      ∃ service, (initial World.trio).run (Codec.tabled []) (completedWrite [7] ++
          [.network (.perform [65] .sync), .network (.perform [65] .crash)]) = some service ∧
        ([65], 1) ∈ service.completed ∧
        ∃ final, service.run (Codec.tabled []) readAtThird = some final ∧
          ∃ read, final.reads.lookup 1 = some read ∧
            ∃ tip, read.result = some tip ∧ True := by
    decide +kernel
  refine ⟨service, final, read, tip, hbefore, hafter, hlookup, hresult, ?_⟩
  exact read_sees_completed (Codec.tabled []) World.trio rfl _ [.readTip 1 [67], .readTip 1 [65]]
    1 1 [65] [67] none (by decide +kernel) service final hbefore hcompleted hafter read hlookup tip
    hresult

end Service

end Rhiza.QuePaxa
