import Rhiza.QuePaxa.Agreement

/-! # The receipts behind a decision

Without crashes every proposal that a register shows was recorded by the node of the
register. So the value of a decision was recorded at a majority, even when some of the
answers it rests on only repeat an older decision.
-/

namespace Rhiza.QuePaxa

open Foundations

namespace Replica

variable {codec : Codec} {replica next : Replica} {action : Action}

/-- A section that neither records nor restarts leaves a register alone or drops it. -/
theorem step_recorder_cases (hstep : replica.step codec action = some next)
    (hcrash : action ≠ .crash) (hjot : ∀ request eligible, action ≠ .record request eligible)
    (slot : ℕ) :
    next.core.recorder slot = replica.core.recorder slot ∨
      next.core.recorder slot = ISR.empty := by
  by_cases hquiet : action.quiet = true
  · have hbook := (step_quiet hquiet hstep).ledger
    exact .inl (Core.recorder_of_votes (congrArg Ledger.votes hbook) slot)
  cases step_performs hstep with
  | record => exact absurd rfl (hjot _ _)
  | @install decision configID hvet =>
    rcases Core.acceptInstall_cases codec replica.core decision configID with hgo |
        ⟨-, -, hgo⟩
    · exact .inl (Core.recorder_of_votes hgo.votes slot)
    · rw [Core.recorder_of_votes hgo.votes slot]
      simp only [Core.recorder, Core.installDecision, Table.lookup_erase_eq]
      split
      · exact .inr rfl
      · exact .inl rfl
  | compactBegin _ _ _ hbegin =>
    obtain ⟨rfl, -⟩ := Core.compactBegin_eq_ok hbegin
    exact .inl rfl
  | @compactCommit running _ _ _ _ hsave =>
    obtain ⟨-, verifier, rfl⟩ := Core.compactCommit_eq_ok hsave
    simp only [Core.recorder, Core.pruneSlotAllocator, Core.installVerifiedBase,
      Core.installBase, Core.dropUnusedValues, Table.lookup_restrict]
    split
    · exact .inl rfl
    · exact .inr rfl
  | compactFinish => exact .inl rfl
  | crash => exact absurd rfl hcrash
  | _ => exact absurd rfl hquiet

end Replica

namespace World

variable {codec : Codec} {config : Cluster} {world later : World} {node : NodeID} {slot : ℕ}

/-- The node recorded the proposal at the step of the slot. -/
def Receipted (world : World) (node : NodeID) (slot step : ℕ) (rank : Rank) : Prop :=
  ∃ answer ∈ world.answers, answer.register = true ∧ answer.summary.recorderID = node ∧
    answer.request.slot = slot ∧ answer.request.step = step ∧ answer.request.proposal.rank = rank

theorem Receipted.mono {step : ℕ} {rank : Rank}
    (hstamp : world.Receipted node slot step rank) (hsaid : world.answers ⊆ later.answers) :
    later.Receipted node slot step rank := by
  obtain ⟨answer, hmem, hshape⟩ := hstamp
  exact ⟨answer, hsaid hmem, hshape⟩

/-- What a node shows of a slot, it has recorded. -/
structure Receipts (world : World) : Prop where
  registers : ∀ node slot, ((world.core node).recorder slot).Sourced (world.Receipted node slot)
  firsts : ∀ {answer}, answer ∈ world.answers → answer.register = true →
    ∀ {first}, answer.summary.firstCurrent = some first →
      world.Receipted answer.summary.recorderID answer.request.slot answer.summary.step first.rank

/-- Receipts are kept as long as changed registers and new answers show receipts. -/
theorem Receipts.of_registers (hslips : world.Receipts) {added : List Answer}
    (hsaid : later.answers = world.answers ++ added)
    (hregisters : ∀ node slot, (later.core node).recorder slot = (world.core node).recorder slot ∨
      ((later.core node).recorder slot).Sourced (later.Receipted node slot))
    (hadded : ∀ answer ∈ added, answer.register = true →
      ∀ {first}, answer.summary.firstCurrent = some first →
        later.Receipted answer.summary.recorderID answer.request.slot answer.summary.step
          first.rank) : later.Receipts := by
  have hmono : ∀ {node slot step rank}, world.Receipted node slot step rank →
      later.Receipted node slot step rank :=
    fun h => h.mono (hsaid ▸ List.subset_append_left _ _)
  refine ⟨fun node slot => ?_, fun hmem hreg _ hfirst => ?_⟩
  · rcases hregisters node slot with hsame | hshown
    · rw [hsame]
      exact (hslips.registers node slot).mono hmono
    · exact hshown
  · rw [hsaid] at hmem
    rcases List.mem_append.mp hmem with hmem | hmem
    · exact hmono (hslips.firsts hmem hreg hfirst)
    · exact hadded _ hmem hreg hfirst

theorem Receipts.of_same (hslips : world.Receipts) (hsaid : later.answers = world.answers)
    (hsame : ∀ node slot, (later.core node).recorder slot = (world.core node).recorder slot) :
    later.Receipts :=
  hslips.of_registers (hsaid.trans (List.append_nil _).symm)
    (fun node slot => .inl (hsame node slot)) fun _ hmem => absurd hmem List.not_mem_nil

/-- A register answer is a receipt of its offer. -/
theorem Receipts.record (hslips : world.Receipts) (hlocal : world.Local codec config node)
    {request : RecordRequest} {eligible : Bool}
    (hact : world.perform codec node (.record request eligible) = some later) : later.Receipts := by
  obtain ⟨core, summary, completion, -, hjot, hlater⟩ := World.perform_record hact
  have hsaid := congrArg World.answers hlater
  have hother : ∀ {other}, other ≠ node → later.core other = world.core other := by
    intro other hne
    rw [hlater]
    exact congrArg Replica.core (Function.update_of_ne hne _ _)
  have hcore : later.core node = core := by
    simp only [hlater, World.core, Function.update_self]
  rcases (Core.recordApply_cases hjot).2 with ⟨decided, hdec, hsay⟩ |
      ⟨-, -, -, hsay⟩
  · obtain ⟨hmarks, -, hreg⟩ := Core.answerDecided_spec hdec hsay
    refine hslips.of_registers hsaid (fun other slot => .inl ?_) fun answer hmem htrue => ?_
    · by_cases hnode : other = node
      · subst hnode
        rw [hcore]
        exact Core.recorder_of_votes (congrArg Ledger.votes hmarks.ledger) slot
      · rw [hother hnode]
    · rw [List.mem_singleton.mp hmem, hreg] at htrue
      cases htrue
  · obtain ⟨id, rfl, rfl, rfl⟩ := answerRegister_spec hlocal.nodeID hsay
    have hstamp : later.Receipted node request.slot request.step request.proposal.rank := by
      refine ⟨world.registerAnswer node request id, ?_, rfl, rfl, rfl, rfl, rfl⟩
      rw [hsaid]
      exact List.mem_append_right _ List.mem_cons_self
    have hnext : (world.nextRegister node request).Sourced (later.Receipted node request.slot) :=
      ((hslips.registers node request.slot).mono fun h =>
        h.mono (hsaid ▸ List.subset_append_left _ _)).next hstamp
    refine hslips.of_registers hsaid (fun other slot => ?_) fun answer hmem _ first hfirst => ?_
    · by_cases hnode : other = node
      · subst hnode
        rw [hcore]
        simp only [Core.recorder, Table.lookup_insert_eq]
        split
        · rename_i heq
          exact .inr (heq ▸ hnext)
        · exact .inl rfl
      · exact .inl (by rw [hother hnode])
    · rw [List.mem_singleton.mp hmem] at hfirst ⊢
      exact hnext.first hfirst

/-- Every event short of a crash keeps the receipts. -/
theorem Receipts.step (hslips : world.Receipts) (hlaw : world.Coherent codec config)
    {event : Event} (hfree : event.crashFree = true)
    (hstep : world.step codec event = some later) : later.Receipts := by
  cases event with
  | perform node action =>
    have hcrash : action ≠ .crash := of_decide_eq_true hfree
    by_cases hjot : ∃ request eligible, action = .record request eligible
    · obtain ⟨request, eligible, rfl⟩ := hjot
      exact hslips.record (hlaw.atNode node) hstep
    · have hother : ∀ request eligible, action ≠ .record request eligible :=
        fun request eligible heq => hjot ⟨request, eligible, heq⟩
      obtain ⟨-, replica, hrep, rfl⟩ := perform_eq_some hstep hcrash
      refine hslips.of_registers rfl (fun other slot => ?_) ?_
      · by_cases hnode : other = node
        · subst hnode
          simp only [World.core, Function.update_self]
          refine (Replica.step_recorder_cases hrep hcrash hother slot).imp_right fun hempty => ?_
          rw [hempty]
          exact ISR.sourced_empty _
        · simp only [World.core, Function.update_of_ne hnode, true_or]
      · intro answer hmem
        cases action with
        | record request eligible => exact absurd rfl (hother request eligible)
        | _ => cases hmem
  | reserve | release | start | send | adopt | serve | conclude | stop =>
    have houtside := step_outside hstep fun _ _ => by simp
    refine hslips.of_same houtside.answers fun node slot => ?_
    obtain ⟨nextSlot, vacant, hsame⟩ := houtside.allocates node
    rw [World.core, hsame]
    rfl

/-- A majority of the voters recorded the value. -/
def Carried (config : Cluster) (world : World) (hash : ValueHash) : Prop :=
  ∃ members, (voters config).IsQuorum members ∧ ∀ node ∈ members, ∃ answer ∈ world.answers,
    answer.register = true ∧ answer.summary.recorderID = node ∧ answer.request.proposal.hash = hash

/-- Every decided value was recorded at a majority. An echo among the answers repeats an
older decision, of the same value, which has a majority of its own. -/
theorem Steady.carried (hworld : world.Steady codec config) (hslips : world.Receipts)
    (hinj : Function.Injective codec.sha256) {hash : ValueHash}
    (hchose : world.Chosen slot hash) : world.Carried config hash := by
  obtain ⟨rank, step, proposal, hcert, rfl⟩ := hchose.certified hworld.coherent
  induction rank using Nat.strong_induction_on generalizing step proposal with
  | _ rank ih =>
    by_cases hecho : ∃ older decidedStep first, older < rank ∧
        (world.history slot).Decided older decidedStep first
    · obtain ⟨older, decidedStep, first, hlt, hdec⟩ := hecho
      obtain ⟨decision, hmem, hslot, hstep, hrank⟩ := id hdec
      have hfirst : world.Chosen slot (Rank.hash first) :=
        .inl ⟨decision, List.mem_of_getElem? hmem, hslot, congrArg Rank.hash hrank⟩
      rw [hworld.chosen_agree hinj hchose hfirst]
      exact ih older hlt decidedStep first (hworld.coherent.protocol.certified hdec) hfirst
    rcases hcert with ⟨-, -, offer, members, prior, hmost, hsaid⟩ |
        ⟨-, -, members, first, prior, ⟨hmost, hsaid⟩, -⟩
    · refine ⟨members, hmost, fun node hnode => ?_⟩
      rcases hsaid node hnode with ⟨answer, hmem, hreg, hshows⟩ |
          ⟨older, decidedStep, hlt, -, hdec, -⟩
      · obtain ⟨shown, hshown, hrank⟩ := Option.map_eq_some_iff.mp hshows.first_eq
        obtain ⟨receipt, hslip, htrue, hpeer, -, -, hrank'⟩ := hslips.firsts hmem hreg hshown
        refine ⟨receipt, hslip, htrue, hpeer.trans hshows.recorder_eq, ?_⟩
        exact (congrArg Rank.hash hrank').trans (congrArg Rank.hash hrank)
      · exact absurd ⟨older, decidedStep, _, hlt, hdec⟩ hecho
    · refine ⟨members, hmost, fun node hnode => ?_⟩
      rcases hsaid node hnode with ⟨answer, hmem, hreg, hshows⟩ |
          ⟨older, decidedStep, hlt, -, hdec, -⟩
      · exact ⟨answer, hmem, hreg, hshows.recorder_eq, congrArg Rank.hash hshows.offer_eq⟩
      · exact absurd ⟨older, decidedStep, _, hlt, hdec⟩ hecho

end World

end Rhiza.QuePaxa
