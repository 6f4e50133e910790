import Rhiza.QuePaxa.Council
import Rhiza.QuePaxa.Restart

/-! # Checkpoint agreement

A decided seal was recorded at a majority, each of its recorders had prepared its root,
and no node prepares two roots at one index. The condition is about the offers that
arrive without their bytes: the check outside the lock takes bytes that are not in
memory for no seal.
-/

namespace Rhiza.QuePaxa

open Foundations

theorem PreparedFirst.append {history marks : List Mark} (hpast : PreparedFirst history)
    (hmarks : ∀ {checkpoint}, .voted checkpoint ∈ marks →
      .prepared checkpoint.index checkpoint.rootHash ∈ history) :
    PreparedFirst (history ++ marks) := by
  intro before checkpoint after heq
  rcases List.append_eq_append_iff.mp heq with ⟨rest, rfl, hrest⟩ | ⟨rest, rfl, hrest⟩
  · refine List.mem_append_left _ (hmarks ?_)
    rw [hrest]
    exact List.mem_append_right _ List.mem_cons_self
  · cases rest with
    | nil =>
      rw [List.append_nil] at hmarks
      refine hmarks ?_
      rw [← List.nil_append marks, ← hrest]
      exact List.mem_cons_self
    | cons mark rest =>
      obtain ⟨rfl, -⟩ := List.cons.inj hrest
      exact hpast before checkpoint rest rfl

namespace World

variable {codec : Codec} {config : Cluster} {world later : World}

/-- The seal is the value of a decision of the cluster. -/
def SealDecided (codec : Codec) (world : World) (checkpoint : CheckpointSeal) : Prop :=
  ∃ decision ∈ world.decisions, codec.sha256 decision.proposal.value = decision.proposal.hash ∧
    codec.decodeCheckpointSeal decision.proposal.value = .ok (some checkpoint)

theorem SealDecided.grow {checkpoint : CheckpointSeal} (hdec : world.SealDecided codec checkpoint)
    (hgrows : world.Grows later) : later.SealDecided codec checkpoint := by
  obtain ⟨decision, hmem, hshape⟩ := hdec
  exact ⟨decision, hgrows.mem_decisions hmem, hshape⟩

variable {request : RecordRequest} {summary : Summary}

/-- An offer without its bytes is as good as the offer. -/
theorem Steady.strip (hworld : world.Steady codec config) {recorder : NodeID}
    (hsent : (recorder, request) ∈ world.requests) :
    ({ world with requests := world.requests ++ [(recorder, request.stripped)] } : World).Steady
      codec config := by
  have hfrom : ∀ {recorder' request'},
      (recorder', request') ∈ world.requests ++ [(recorder, request.stripped)] →
      ∃ offerer offer, (offerer, offer) ∈ world.requests ∧
        (request' = offer ∨ request' = offer.stripped) := by
    intro recorder' request' hmem
    rcases List.mem_append.mp hmem with hold | hnew
    · exact ⟨recorder', request', hold, .inl rfl⟩
    · exact ⟨recorder, request, hsent, .inr (Prod.mk.inj (List.mem_singleton.mp hnew)).2⟩
  obtain ⟨hlaw, hallot, hled⟩ := hworld
  have hproto := hlaw.protocol
  refine ⟨hlaw.of_network world.grows_requests rfl rfl ?_, ?_, ?_⟩
  · refine hproto.grow world.grows_requests .inl .inl (fun hask => .inr ?_) .inl
      hproto.first_stable hproto.prior_dominates .inl
    obtain ⟨_, _, hold, rfl | rfl⟩ := hfrom hask
    · exact (hproto.requested hold).grow world.grows_requests
    · exact (hproto.requested hold).grow world.grows_requests
  · refine { hallot with
      request_taken := fun hask hfast => ?_
      request_thread := fun {_ _ _ thread} hask hfast hget hjob hstep => ?_
      request_unique := fun hleft hright hfast hfast' => ?_ }
    · obtain ⟨_, _, hold, hform⟩ := hfrom hask
      have htaken := hallot.request_taken hold
      rcases hform with rfl | rfl
      · exact htaken hfast
      · exact htaken hfast
    · obtain ⟨_, offer, hold, hform⟩ := hfrom hask
      have hsame : FastRequest offer → FastThread thread offer.proposal.proposerID offer.slot →
          offer.proposal.rank = thread.proposer.proposal.rank :=
        fun hfast hjob => hallot.request_thread hold hfast hget hjob hstep
      rcases hform with rfl | rfl
      · exact hsame hfast hjob
      · exact hsame hfast hjob
    · obtain ⟨_, _, hold, hform⟩ := hfrom hleft
      obtain ⟨_, _, hold', hform'⟩ := hfrom hright
      have hunique := hallot.request_unique hold hold'
      rcases hform with rfl | rfl
      · rcases hform' with rfl | rfl
        · exact hunique hfast hfast'
        · exact hunique hfast hfast'
      · rcases hform' with rfl | rfl
        · exact hunique hfast hfast'
        · exact hunique hfast hfast'
  · refine ⟨fun hjob hstep => (hled.threads hjob hstep).grow world.grows_requests,
      fun hask hfast => ?_⟩
    obtain ⟨_, _, hold, rfl | rfl⟩ := hfrom hask
    · exact (hled.requests hold hfast).grow world.grows_requests
    · exact (hled.requests hold hfast).grow world.grows_requests

theorem mem_copies {answer : Answer} :
    answer ∈ world.copies request summary ↔
      ⟨request.stripped, summary, answer.register⟩ ∈ world.answers ∧
        answer = ⟨request, summary, answer.register⟩ := by
  simp only [copies, List.mem_map, List.mem_filter, decide_eq_true_eq]
  refine ⟨?_, fun ⟨hmem, heq⟩ => ⟨_, ⟨hmem, rfl, rfl⟩, heq.symm⟩⟩
  rintro ⟨⟨_, _, register⟩, ⟨hmem, rfl, rfl⟩, rfl⟩
  exact ⟨hmem, rfl⟩

/-- Answers that repeat others to the letter are consistent with all answers. -/
theorem Steady.credit (hworld : world.Steady codec config)
    (hsent : (summary.recorderID, request) ∈ world.requests)
    (hreply : (request.stripped, summary) ∈ world.replies) :
    ({ world with
        answers := world.answers ++ world.copies request summary
        replies := world.replies ++ [(request, summary)] } : World).Steady codec config := by
  have hgrows : world.Grows { world with
      answers := world.answers ++ world.copies request summary
      replies := world.replies ++ [(request, summary)] } := world.grows_answers
  obtain ⟨hlaw, hallot, hled⟩ := hworld
  have hproto := hlaw.protocol
  have hrec : ∀ {slot recorder step offer first prior},
      (({ world with
        answers := world.answers ++ world.copies request summary
        replies := world.replies ++ [(request, summary)] } : World).history slot).Recorded
          recorder step offer first prior →
      (world.history slot).Recorded recorder step offer first prior := by
    rintro slot recorder step offer first prior ⟨answer, hmem, hreg, hshows⟩
    rcases List.mem_append.mp hmem with hold | hcopy
    · exact ⟨answer, hold, hreg, hshows⟩
    · obtain ⟨hold, heq⟩ := mem_copies.mp hcopy
      rw [heq] at hshows
      exact ⟨_, hold, hreg, ⟨hshows.slot_eq, hshows.recorder_eq, hshows.step_eq,
        hshows.current, hshows.offer_eq, hshows.first_eq, hshows.prior_eq⟩⟩
  refine ⟨⟨fun node => ?_, ?_⟩, ?_, hled.grow hgrows rfl rfl⟩
  · have hlocal := hlaw.atNode node
    have hcalls := (hlocal.inFlight (world.core node)).grow hgrows
    refine ⟨hlocal.nodeID, hlocal.config_eq, hlocal.fixed, hlocal.baseLeader.grow hgrows,
      hlocal.baseFollowing.grow hgrows, hcalls.compacting, hcalls.admitted, hcalls.checked,
      hcalls.pending, fun hdec => (hlocal.installed hdec).grow hgrows,
      fun slot => (hlocal.sourced slot).mono (hgrows.extends slot).sent, ?_⟩
    intro answer hmem hreg hnode hnow hfloor hunset
    rcases List.mem_append.mp hmem with hold | hcopy
    · exact hlocal.remembers hold hreg hnode hnow hfloor hunset
    · obtain ⟨hold, heq⟩ := mem_copies.mp hcopy
      have hrecall := hlocal.remembers hold hreg
      rw [heq] at hnode hnow hfloor hunset ⊢
      exact hrecall hnode hnow hfloor hunset
  · refine hproto.grow hgrows (fun {answer} hmem => ?_) (fun hmem => ?_)
      (fun hmem => .inl ⟨_, hmem⟩) .inl
      (fun hleft hright => hproto.first_stable (hrec hleft) (hrec hright))
      (fun hleft hright => hproto.prior_dominates (hrec hleft) (hrec hright)) .inl
    · refine (List.mem_append.mp hmem).imp_right fun hcopy => ?_
      obtain ⟨hold, heq⟩ := mem_copies.mp hcopy
      rw [heq]
      exact ⟨hsent, (hproto.answered hold).2.grow hgrows⟩
    · refine (List.mem_append.mp hmem).imp_right fun hnew => ?_
      cases List.mem_singleton.mp hnew
      obtain ⟨register, hsay⟩ := hproto.replied hreply
      exact ⟨register, List.mem_append_right _ (mem_copies.mpr ⟨hsay, rfl⟩)⟩
  · exact hallot.of_retains (fun _ => le_rfl) rfl rfl rfl rfl

theorem Receipts.credit (hslips : world.Receipts) {replies : List (RecordRequest × Summary)} :
    ({ world with answers := world.answers ++ world.copies request summary, replies } :
      World).Receipts := by
  refine ⟨fun node slot => ?_, fun hmem hreg first hfirst => ?_⟩
  · exact (hslips.registers node slot).mono fun h => h.mono (List.subset_append_left _ _)
  · rcases List.mem_append.mp hmem with hold | hcopy
    · exact (hslips.firsts hold hreg hfirst).mono (List.subset_append_left _ _)
    · obtain ⟨hold, heq⟩ := mem_copies.mp hcopy
      rw [heq] at hfirst ⊢
      exact (hslips.firsts hold hreg hfirst).mono (List.subset_append_left _ _)

/-- Nothing that was sent, answered or decided is taken back. -/
theorem step_grows {event : Event} (hstep : world.step codec event = some later) :
    world.Grows later := by
  cases event with
  | perform =>
    simp only [World.step, World.perform] at hstep
    split at hstep
    · simp only [Option.bind_eq_bind, Option.bind_eq_some_iff] at hstep
      obtain ⟨replica, -, hlater⟩ := hstep
      split at hlater
      · cases hlater
        exact world.grows_answers
      · cases hlater
        exact world.grows_answers
    · cases hstep
  | _ => exact (step_outside hstep fun _ _ => by simp).grows

/-- What a run without crashes keeps of a cluster that decides seals. -/
structure Sealing (codec : Codec) (config : Cluster) (world : World) : Prop where
  steady : world.Steady codec config
  receipts : world.Receipts
  disciplined : ∀ node, (world.replicas node).Disciplined codec
  indexed : ∀ node, Replica.Indexed codec (world.SealDecided codec) (world.core node)

theorem Sealing.step (hworld : world.Sealing codec config) {event : Event}
    (hfree : event.crashFree = true) (hstep : world.step codec event = some later) :
    later.Sealing codec config where
  steady := hworld.steady.step hfree hstep
  receipts := hworld.receipts.step hworld.steady.coherent hfree hstep
  disciplined := disciplined_step hstep hworld.disciplined
  indexed node := by
    have hgrow : ∀ {checkpoint}, world.SealDecided codec checkpoint →
        later.SealDecided codec checkpoint := fun hdec => hdec.grow (step_grows hstep)
    refine Replica.Indexed.mono ?_ hgrow
    rcases step_replica hstep node with ⟨action, rfl, hrep⟩ | ⟨nextSlot, vacant, hsame⟩
    · refine Replica.Indexed.step (hworld.indexed node) (hworld.disciplined node) ?_
        (of_decide_eq_true hfree) hrep
      -- A decision that a node is about to install decides its seal.
      rintro decision _ ⟨⟨entry, configID⟩, hcheck, rfl⟩ hdecoded
      obtain ⟨hmem, hhash⟩ := (hworld.steady.coherent.atNode node).checked hcheck
      exact ⟨entry, hmem, hhash, hdecoded⟩
    · rw [core, hsame]
      exact Replica.Indexed.congr (hworld.indexed node) rfl rfl

end World

namespace Council

variable {codec : Codec} {config : Cluster} {council next : Council}

/-- What holds between two events of a council. -/
structure Sound (codec : Codec) (config : Cluster) (council : Council) : Prop extends
    council.world.Sealing codec config where
  committed : ∀ node, (council.world.replicas node).Committed (council.history node)
  vouched : ∀ {node request}, request ∈ council.validated node →
    ∀ {value checkpoint}, codec.sha256 value = request.proposal.hash →
      codec.decodeCheckpointSeal value = .ok (some checkpoint) →
        .prepared checkpoint.index checkpoint.rootHash ∈ council.history node
  prepared : council.Prepared
  voted : ∀ {answer}, answer ∈ council.world.answers → answer.register = true →
    ∀ {value checkpoint}, codec.sha256 value = answer.request.proposal.hash →
      codec.decodeCheckpointSeal value = .ok (some checkpoint) →
        .voted checkpoint ∈ council.history answer.summary.recorderID

theorem sound_initial (codec : Codec) (deployment : World.Deployment)
    (hfixed : deployment.reconfigEnabled = false) :
    (initial deployment).Sound codec deployment.config where
  steady := World.steady_initial codec deployment hfixed
  receipts := ⟨fun _ _ => ISR.sourced_empty _, nofun⟩
  disciplined := World.disciplined_initial codec deployment
  indexed _ := ⟨nofun, nofun⟩
  committed _ := Replica.committed_newCore ..
  vouched := nofun
  prepared _ := by
    intro before checkpoint after heq
    exact absurd heq.symm (List.append_ne_nil_of_right_ne_nil _ (List.cons_ne_nil _ _))
  voted := nofun

variable {node : NodeID} {checkpoint : CheckpointSeal}

variable {event : Event} {world : World}

/-- An event of the cluster without checkpoint checks of its own. -/
structure Plain (event : Event) : Prop where
  crashFree : event.crashFree = true
  records : ∀ {node request eligible}, event ≠ .perform node (.record request eligible)
  prepares : ∀ {node checkpoint payload eligible},
    event ≠ .perform node (.prepare checkpoint payload eligible)

theorem proceed_eq_some (hstep : council.proceed codec event = some next) :
    Plain event ∧ ∃ world, council.world.step codec event = some world ∧
      next = { council with
        world
        history := fun node => council.history node ++ council.completes event node } := by
  unfold proceed at hstep
  split at hstep
  · cases hstep
  · cases hstep
  · cases hstep
  next hrecords hpreps hcrash =>
    simp only [Option.bind_eq_bind, Option.bind_eq_some_iff] at hstep
    obtain ⟨world, hworld, ⟨⟩⟩ := hstep
    refine ⟨⟨?_, fun heq => hrecords _ _ _ heq, fun heq => hpreps _ _ _ _ heq⟩, world, hworld, rfl⟩
    cases event with
    | perform node action => exact decide_eq_true fun heq => hcrash node (heq ▸ rfl)
    | _ => rfl

/-- A preparation is no vote. -/
theorem voted_not_mem_completes : .voted checkpoint ∉ council.completes event node := by
  unfold completes
  split
  · split
    · unfold Replica.preparedMarks
      split
      · split
        · simp
        · exact List.not_mem_nil
      · exact List.not_mem_nil
    · exact List.not_mem_nil
  · exact List.not_mem_nil

/-- The prepared checkpoints of a node over an event of the cluster. -/
theorem Sound.committed_step (hbody : council.Sound codec config)
    (hplain : Plain event) (hstep : council.world.step codec event = some world) (node : NodeID) :
    (world.replicas node).Committed (council.history node ++ council.completes event node) := by
  have hold := hbody.committed node
  have hnone : (∀ position, event ≠ .perform node (.finish position)) →
      council.completes event node = [] := by
    intro hother
    unfold completes
    split
    next actor position =>
      refine if_neg ?_
      rintro rfl
      exact hother position rfl
    next => rfl
  by_cases hnode : ∃ action, event = .perform node action
  · obtain ⟨action, rfl⟩ := hnode
    have hcrash : action ≠ .crash := of_decide_eq_true hplain.crashFree
    obtain ⟨-, replica, hrep, rfl⟩ := World.perform_eq_some hstep hcrash
    dsimp only
    rw [Function.update_self]
    by_cases hfin : ∃ position, action = .finish position
    · obtain ⟨position, rfl⟩ := hfin
      simp only [completes, if_true]
      exact hold.finish hrep
    · rw [hnone fun position heq => hfin ⟨position, by cases heq; rfl⟩, List.append_nil]
      by_cases hsave : action = .compactCommit
      · subst hsave
        exact hold.commit hrep
      · refine hold.plain hrep ?_
        cases action with
        | prepare => exact absurd rfl hplain.prepares
        | finish position => exact absurd ⟨position, rfl⟩ hfin
        | compactCommit => exact absurd rfl hsave
        | crash => exact absurd rfl hcrash
        | _ => rfl
  · rw [hnone fun position heq => hnode ⟨_, heq⟩, List.append_nil]
    rcases World.step_replica hstep node with ⟨action, heq, -⟩ | ⟨nextSlot, vacant, hsame⟩
    · exact absurd ⟨action, heq⟩ hnode
    · rw [hsame]
      exact hold.congr rfl ⟨hold.single, hold.exclusive, hold.running⟩

theorem Sound.proceed (hbody : council.Sound codec config)
    (hstep : council.proceed codec event = some next) : next.Sound codec config := by
  obtain ⟨hplain, world, hworld, rfl⟩ := proceed_eq_some hstep
  have hsaid : world.answers = council.world.answers := by
    cases event with
    | perform node action =>
      obtain ⟨-, replica, -, rfl⟩ :=
        World.perform_eq_some hworld (of_decide_eq_true hplain.crashFree)
      cases action with
      | record => exact absurd rfl hplain.records
      | _ => exact List.append_nil _
    | _ => exact (World.step_outside hworld fun _ _ => by simp).answers
  exact
    { toSealing := hbody.toSealing.step hplain.crashFree hworld
      committed := hbody.committed_step hplain hworld
      vouched := fun hmem _ _ hhash hgot =>
        List.mem_append_left _ (hbody.vouched hmem hhash hgot)
      prepared := fun node =>
        (hbody.prepared node).append fun hvoted => absurd hvoted voted_not_mem_completes
      voted := fun hmem hreg _ _ hhash hgot => by
        rw [hsaid] at hmem
        exact List.mem_append_left _ (hbody.voted hmem hreg hhash hgot) }

variable {request : RecordRequest}

section Sound

variable (hbody : council.Sound codec config) {summary : Summary} {hash : ValueHash} {value : Bytes}
include hbody

theorem Sound.strip {recorder : NodeID} (hstep : council.strip recorder request = some next) :
    next.Sound codec config := by
  unfold Council.strip at hstep
  split at hstep
  next hsent =>
    cases hstep
    exact { hbody with
      steady := hbody.steady.strip hsent
      receipts := hbody.receipts.of_same rfl fun _ _ => rfl }
  next => cases hstep

theorem Sound.credit (hstep : council.credit request summary = some next) :
    next.Sound codec config := by
  unfold Council.credit at hstep
  split at hstep
  next hreply =>
    cases hstep
    refine { hbody with
      steady := hbody.steady.credit hreply.1 hreply.2
      receipts := hbody.receipts.credit
      voted := fun hmem hreg _ _ hhash hgot => ?_ }
    rcases List.mem_append.mp hmem with hold | hcopy
    · exact hbody.voted hold hreg hhash hgot
    · obtain ⟨hold, heq⟩ := World.mem_copies.mp hcopy
      rw [heq] at hhash ⊢
      exact hbody.voted hold hreg hhash hgot
  next => cases hstep

/-- A seal that passes the check outside the lock is prepared. -/
theorem Sound.validated
    (hvalue : (council.world.core node).values.lookup hash = some value)
    (hvalid : (council.world.core node).validateCheckpointValue codec hash = .ok ())
    (hgot : codec.decodeCheckpointSeal value = .ok (some checkpoint)) :
    .prepared checkpoint.index checkpoint.rootHash ∈ council.history node := by
  have hoff : (council.world.core node).offeredSeal codec hash = .ok (some checkpoint) := by
    simp only [Core.offeredSeal, hvalue, hgot]
  obtain ⟨offered, hoff', hvalid⟩ := bind_eq_ok.mp hvalid
  cases hoff.symm.trans hoff'
  obtain ⟨verified, hname, hverified⟩ := bind_eq_ok.mp hvalid
  obtain rfl : verified = true := require_eq_ok.mp hverified
  simp only [Core.checkpointIdentity, seq_eq_ok, Except.ok.injEq] at hname
  obtain ⟨-, -, -, -, hfence, hany⟩ := hname
  obtain ⟨⟨index, root⟩, hlate, hindex⟩ := Option.any_eq_true _ _ |>.mp hany
  obtain rfl : index = checkpoint.index := of_decide_eq_true hindex
  have hget := Core.lookup_latestPrepared hlate
  obtain ⟨hplus, hmark⟩ := (hbody.committed node).source hget
  obtain ⟨-, hroot⟩ := Core.checkCheckpointFence_spec hfence hget hplus
  rw [← hroot rfl]
  exact hmark

/-- A receipt for a seal is appended only for a prepared root. -/
theorem Sound.votes_prepared
    (hallow : request ∈ council.validated node ∨
      (council.world.core node).exactCertified request = true)
    (hvoted : .voted checkpoint ∈ (council.world.replicas node).votedMarks codec request) :
    .prepared checkpoint.index checkpoint.rootHash ∈ council.history node := by
  obtain ⟨_, ⟨⟩, hnone, hoff⟩ := Replica.mem_votedMarks hvoted
  have hvalid : request ∈ council.validated node := by
    refine hallow.resolve_right fun hexact => ?_
    have hnone : (council.world.core node).decided.lookup request.slot = none := hnone
    simp only [Core.exactCertified, hnone, Bool.false_eq_true] at hexact
  unfold Core.offeredSeal at hoff
  split at hoff
  · cases hoff
  next stored hbox => exact hbody.vouched hvalid ((hbody.indexed node).hashed hbox) hoff

section Injective

variable (hinj : Function.Injective codec.sha256)
include hinj

/-- The bytes of an offer that are in memory are the bytes of its hash. -/
theorem Sound.value_eq {stored : Bytes}
    (hbox : (council.world.core node).values.lookup hash = some stored)
    (hvalue : codec.sha256 value = hash) : stored = value :=
  hinj (((hbody.indexed node).hashed hbox).trans hvalue.symm)

theorem Sound.validate (hsafe : council.Safe codec (.validate node request))
    (hstep : council.validate codec node request = some next) : next.Sound codec config := by
  unfold Council.validate at hstep
  split at hstep
  next =>
    simp only [Option.bind_eq_bind, Option.bind_eq_some_iff, toOption_eq_some] at hstep
    obtain ⟨⟨⟩, hvalid, ⟨⟩⟩ := hstep
    refine { hbody with vouched := fun {other request'} hmem {value checkpoint} hhash hgot => ?_ }
    dsimp only at hmem ⊢
    by_cases hnode : other = node
    · subst hnode
      rw [Function.update_self] at hmem
      rcases List.mem_cons.mp hmem with rfl | hold
      · obtain ⟨stored, hbox⟩ := Option.isSome_iff_exists.mp
          (hsafe other request' value checkpoint rfl hhash hgot)
        obtain rfl := hbody.value_eq hinj hbox hhash
        exact hbody.validated hbox hvalid hgot
      · exact hbody.vouched hold hhash hgot
    · rw [Function.update_of_ne hnode] at hmem
      exact hbody.vouched hmem hhash hgot
  next => cases hstep

/-- A register answer leaves the vote for its seal. -/
theorem Sound.answer_voted {eligible : Bool} {core : Core} {completion : Completion}
    (hjot : (council.world.core node).recordApply codec request eligible =
      .ok (core, summary, completion))
    (hreg : completion.fromRegister = true) (hhash : codec.sha256 value = request.proposal.hash)
    (hgot : codec.decodeCheckpointSeal value = .ok (some checkpoint)) :
    summary.recorderID = node ∧
      .voted checkpoint ∈ (council.world.replicas node).votedMarks codec request := by
  have hnode := (hbody.steady.coherent.atNode node).nodeID
  rcases (Core.recordApply_cases hjot).2 with ⟨decided, hdec, hsay⟩ |
      ⟨hnone, hapt, -, hsay⟩
  · obtain ⟨-, -, hecho⟩ := Core.answerDecided_spec hdec hsay
    rw [hreg] at hecho
    cases hecho
  · obtain ⟨id, rfl, -, -⟩ := World.answerRegister_spec hnode hsay
    obtain ⟨stored, hbox⟩ := Option.isSome_iff_exists.mp (Core.checkpointEligibility_known hapt)
    obtain rfl := hbody.value_eq hinj hbox hhash
    have hoff : (council.world.replicas node).core.offeredSeal codec request.proposal.hash =
        .ok (some checkpoint) := by
      rw [← hgot]
      simp only [Core.offeredSeal]
      split
      · rename_i hmissing
        rw [World.core, hmissing] at hbox
        cases hbox
      · rename_i found hfound
        rw [World.core, hfound] at hbox
        cases hbox
        rfl
    have hnone : (council.world.replicas node).core.decided.lookup request.slot = none := hnone
    refine ⟨rfl, ?_⟩
    simp only [Replica.votedMarks, hnone, hoff, Option.isNone_none, if_true]
    exact List.mem_cons_self

theorem Sound.record (hstep : council.record codec node request = some next) :
    next.Sound codec config := by
  unfold Council.record at hstep
  split at hstep
  next hallow =>
    simp only [Option.bind_eq_bind, Option.bind_eq_some_iff] at hstep
    obtain ⟨world, hworld, ⟨⟩⟩ := hstep
    have hfree : Event.crashFree (.perform node (.record request
        ((council.world.core node).checkCheckpointRecordEligibility codec
          request.proposal.hash).toOption.isSome)) = true := by simp [Event.crashFree]
    have hpast : ∀ other, council.history other ⊆ Function.update council.history node
        (council.history node ++ (council.world.replicas node).votedMarks codec request) other :=
      (Function.forall_update_iff _ fun other marks => council.history other ⊆ marks).mpr
        ⟨List.subset_append_left _ _, fun _ _ => List.Subset.refl _⟩
    refine
      { toSealing := hbody.toSealing.step hfree hworld
        committed := fun other => ?_
        vouched := fun hmem _ _ hhash hgot => hpast _ (hbody.vouched hmem hhash hgot)
        prepared := ?_
        voted := fun hmem hreg _ _ hhash hgot => ?_ }
    · obtain ⟨-, replica, hrep, rfl⟩ := World.perform_eq_some hworld (by simp)
      dsimp only
      by_cases hother : other = node
      · subst hother
        rw [Function.update_self, Function.update_self]
        refine ((hbody.committed other).plain hrep rfl).vote fun hmark => ?_
        obtain ⟨_, heq, -⟩ := Replica.mem_votedMarks hmark
        cases heq
      · rw [Function.update_of_ne hother, Function.update_of_ne hother]
        exact hbody.committed other
    · exact (Function.forall_update_iff _ fun _ => PreparedFirst).mpr
        ⟨(hbody.prepared node).append (hbody.votes_prepared hallow),
          fun other _ => hbody.prepared other⟩
    · obtain ⟨core, summary, completion, -, hjot, rfl⟩ := World.perform_record hworld
      rcases List.mem_append.mp hmem with hold | hnew
      · exact hpast _ (hbody.voted hold hreg hhash hgot)
      · cases List.mem_singleton.mp hnew
        obtain ⟨rfl, hvoted⟩ := hbody.answer_voted hinj hjot hreg hhash hgot
        dsimp only
        rw [Function.update_self]
        exact List.mem_append_right _ hvoted
  next => cases hstep

end Injective

theorem Sound.prepare {payload : Bytes}
    (hstep : council.prepare codec node checkpoint payload = some next) :
    next.Sound codec config := by
  simp only [Council.prepare, Option.bind_eq_bind, Option.bind_eq_some_iff] at hstep
  obtain ⟨world, hworld, ⟨⟩⟩ := hstep
  have hfree : Event.crashFree (.perform node (.prepare checkpoint payload
      ((council.world.core node).checkPrepare codec checkpoint payload).toOption.isSome)) = true :=
    by simp [Event.crashFree]
  have hsaid : world.answers = council.world.answers := by
    obtain ⟨-, replica, -, rfl⟩ := World.perform_eq_some hworld (by simp)
    exact List.append_nil _
  refine
    { hbody with
      toSealing := hbody.toSealing.step hfree hworld
      committed := ?_
      voted := fun hmem => hbody.voted (hsaid ▸ hmem) }
  obtain ⟨-, replica, hrep, rfl⟩ := World.perform_eq_some hworld (by simp)
  exact (Function.forall_update_iff _ fun other =>
    (Replica.Committed · (council.history other))).mpr
    ⟨(hbody.committed node).prepare hrep, fun other _ => hbody.committed other⟩

/-- A call that waits again for a marker changes nothing but the calls in flight. -/
theorem Sound.resume {index : ℕ} (hstep : council.resume node index = some next) :
    next.Sound codec config := by
  unfold Council.resume at hstep
  dsimp only at hstep
  split at hstep
  next hfree =>
    simp only [Option.bind_eq_bind, Option.bind_eq_some_iff] at hstep
    obtain ⟨prepared, -, ⟨⟩⟩ := hstep
    have hcore : ∀ other, World.core { council.world with
        replicas := Function.update council.world.replicas node
          { council.world.replicas node with
            pending := (council.world.replicas node).wait (.prepare index prepared) } } other =
        council.world.core other := by
      intro other
      by_cases hother : other = node
      · subst hother
        simp only [World.core, Function.update_self]
      · simp only [World.core, Function.update_of_ne hother]
    obtain ⟨hlaw, hallot, hled⟩ := hbody.steady
    refine { hbody with
      steady := ⟨?_, ?_, hled.grow council.world.grows_same rfl rfl⟩
      receipts := hbody.receipts.of_same rfl fun other slot => by rw [hcore]
      disciplined := ?_
      indexed := fun other => ?_
      committed := ?_ }
    · have hlocal := hlaw.atNode node
      refine hlaw.setReplica rfl
        ⟨hlocal.compacting, hlocal.admitted, hlocal.checked, fun hmem => ?_⟩
      obtain ⟨_, hold⟩ := Replica.wait_pending rfl hmem rfl
      exact hlocal.pending hold
    · exact hallot.of_retains (fun other => (congrArg Core.nextSlot (hcore other)).ge)
        rfl rfl rfl rfl
    · refine (Function.forall_update_iff _ fun _ => Replica.Disciplined codec).mpr
        ⟨?_, fun other _ => hbody.disciplined other⟩
      obtain ⟨hyes, hfiled, hmarkers, hhead, hbase, hfenced⟩ := hbody.disciplined node
      exact ⟨hyes, hfiled, hmarkers, hhead, hbase, hfenced⟩
    · rw [hcore]
      exact hbody.indexed other
    · exact (Function.forall_update_iff _ fun other =>
        (Replica.Committed · (council.history other))).mpr
          ⟨(hbody.committed node).resume hfree, fun other _ => hbody.committed other⟩
  next => cases hstep

/-- Every event that meets the condition keeps a council sound. -/
theorem Sound.step (hinj : Function.Injective codec.sha256) {event : CouncilEvent}
    (hsafe : council.Safe codec event) (hstep : council.step codec event = some next) :
    next.Sound codec config := by
  cases event with
  | proceed => exact hbody.proceed hstep
  | strip => exact hbody.strip hstep
  | credit => exact hbody.credit hstep
  | validate => exact hbody.validate hinj hsafe hstep
  | record => exact hbody.record hinj hstep
  | prepare => exact hbody.prepare hstep
  | resume => exact hbody.resume hstep

/-- Decided seals with one index have one root: a common recorder of both prepared it. -/
theorem Sound.seals_agree (hinj : Function.Injective codec.sha256)
    {checkpoint checkpoint' : CheckpointSeal} (hleft : council.Seals codec checkpoint)
    (hright : council.Seals codec checkpoint') (hindex : checkpoint.index = checkpoint'.index) :
    checkpoint.rootHash = checkpoint'.rootHash := by
  have hprep : ∀ {node answer value} {voted : CheckpointSeal},
      answer ∈ council.world.answers → answer.register = true →
      answer.summary.recorderID = node → answer.request.proposal.hash = codec.sha256 value →
      codec.decodeCheckpointSeal value = .ok (some voted) →
      .prepared voted.index voted.rootHash ∈ council.history node := by
    intro node answer value voted hmem hreg hnode hhash hgot
    have hvoted := hbody.voted hmem hreg hhash.symm hgot
    rw [hnode] at hvoted
    obtain ⟨before, after, hsplit⟩ := List.append_of_mem hvoted
    rw [hsplit]
    exact List.mem_append_left _ (hbody.prepared node before voted after hsplit)
  obtain ⟨slot, value, hchose, hgot⟩ := hleft
  obtain ⟨slot', value', hchose', hgot'⟩ := hright
  obtain ⟨members, hmost, hbear⟩ := hbody.steady.carried hbody.receipts hinj hchose
  obtain ⟨members', hmost', hbear'⟩ := hbody.steady.carried hbody.receipts hinj hchose'
  obtain ⟨node, hseat, hseat'⟩ := (voters config).meet hmost hmost'
  obtain ⟨answer, hmem, hreg, hnode, hhash⟩ := hbear node hseat
  obtain ⟨answer', hmem', hreg', hnode', hhash'⟩ := hbear' node hseat'
  have hmark := hprep hmem hreg hnode hhash hgot
  have hmark' := hprep hmem' hreg' hnode' hhash' hgot'
  rw [hindex] at hmark
  exact (hbody.committed node).unique hmark hmark'

end Sound

/-- The walk over the decided seals finds no conflict when they agree. -/
theorem foldlM_newerSeal {Listed : SealedCheckpoint → Prop}
    (hagree : ∀ {left right}, Listed left → Listed right →
      left.checkpointSeal.index = right.checkpointSeal.index →
        left.checkpointSeal.rootHash = right.checkpointSeal.rootHash)
    (entries : List (Σ _ : ValueHash, SealedCheckpoint)) (latest : Option SealedCheckpoint)
    (hlate : ∀ old ∈ latest, Listed old)
    (hlist : ∀ entry ∈ entries, Listed entry.2 ∧ entry.2.checkpointSeal.rootHash = entry.1) :
    ∃ newest, entries.foldlM newerSeal latest = .ok newest := by
  induction entries generalizing latest with
  | nil => exact ⟨latest, rfl⟩
  | cons entry rest ih =>
    obtain ⟨⟨hlisted, hroot⟩, hrest⟩ := List.forall_mem_cons.mp hlist
    have hturn : ∃ newer, newerSeal latest entry = .ok newer ∧ ∀ old ∈ newer, Listed old := by
      unfold newerSeal
      split
      · exact ⟨_, rfl, fun old hold => Option.mem_some_iff.mp hold ▸ hlisted⟩
      · split
        next hconflict =>
          obtain ⟨old, hold, hdiffer⟩ := Option.any_eq_true _ _ |>.mp hconflict.2
          obtain ⟨hindex, hne⟩ := of_decide_eq_true hdiffer
          rw [← hroot] at hne
          exact absurd (hagree hlisted (hlate old hold) hindex) hne
        next => exact ⟨latest, rfl, hlate⟩
    obtain ⟨newer, hnewer, hkept⟩ := hturn
    rw [List.foldlM_cons, hnewer]
    exact ih newer hkept hrest

/-- Checkpoint agreement: in every run in which the check of a seal outside the lock has
the bytes of the seal in memory, a receipt for a seal is appended only by a node
that has prepared its root at its index, and decided seals with one index have one
root. -/
theorem checkpoints_agree (codec : Codec) (hinjective : Function.Injective codec.sha256)
    (deployment : World.Deployment) (hfixed : deployment.reconfigEnabled = false)
    (events : List CouncilEvent) (council : Council)
    (hsafe : Guarded (step codec) (Safe codec) (initial deployment) events)
    (hrun : (initial deployment).run codec events = some council) :
    council.Prepared ∧ council.SealsAgree codec := by
  have hcouncil : council.Sound codec deployment.config :=
    hsafe.invariant (fun hcouncil hguard hstep => hcouncil.step hinjective hguard hstep) hrun
      (sound_initial codec deployment hfixed)
  have hseals : ∀ {checkpoint}, council.world.SealDecided codec checkpoint →
      council.Seals codec checkpoint := by
    rintro checkpoint ⟨decision, hmem, hhash, hdecode⟩
    exact ⟨decision.slot, decision.proposal.value, .inl ⟨decision, hmem, rfl, hhash.symm⟩, hdecode⟩
  refine ⟨hcouncil.prepared, fun _ _ => hcouncil.seals_agree hinjective, ?_⟩
  intro node entries hperm
  refine foldlM_newerSeal
    (fun {left right} hleft hright =>
      hcouncil.seals_agree hinjective (hseals hleft) (hseals hright))
    entries none nofun ?_
  intro entry hentry
  have hlookup : (council.world.core node).sealedRoots.lookup entry.1 = some entry.2 :=
    AList.mem_lookup_iff.mpr (hperm.mem_iff.mp hentry)
  obtain ⟨hroot, hdecided⟩ := (hcouncil.indexed node).sealed hlookup
  exact ⟨hdecided, hroot⟩

section Runs

open Voter (leaderOffer leaderCertified sealBytes firstSeal sealing)

/-- The leader of the first epoch offers a value. -/
def leaderSends (slot : ℕ) (value : Bytes) : List CouncilEvent :=
  [.proceed (.reserve [65]), .proceed (.start slot [65] slot value true), .proceed (.send slot 0)]

/-- A recorder stages the bytes of an offer, checks it, records it and replies. -/
def answersInline (node : NodeID) (request : RecordRequest) : List CouncilEvent :=
  [.proceed (.perform node (.admitRequest request none)), .proceed (.perform node (.stage request)),
    .validate node request, .record node request, .proceed (.perform node .sync),
    .proceed (.perform node (.finish 0))]

/-- The summary of a recorder that saw the leader's offer first. -/
def leaderSummary (slot : ℕ) (value : Bytes) (recorder : NodeID) : Summary :=
  ⟨recorder, 0, 4, some (leaderOffer slot value).proposal.ref, none⟩

/-- A recorder checks an offer without bytes, and gets the bytes before it records. -/
def answersLate (slot : ℕ) (value : Bytes) (node : NodeID) : List CouncilEvent :=
  let request := leaderOffer slot value
  [.strip node request, .proceed (.perform node (.admitRequest request.stripped none)),
    .validate node request.stripped,
    .proceed (.perform node (.stageValue request.proposal.hash value)),
    .record node request.stripped, .proceed (.perform node .sync),
    .proceed (.perform node (.finish 0)), .credit request (leaderSummary slot value node)]

/-- The leader decides on the answers of the other two voters, and the nodes learn it. -/
def leaderDecides (slot : ℕ) (value : Bytes) (nodes : List NodeID) : List CouncilEvent :=
  .proceed (.conclude slot ([[66], [67]].map (leaderSummary slot value)) value) ::
    nodes.flatMap fun node =>
      [.proceed (.perform node (.check (leaderCertified slot value))),
        .proceed (.perform node (.install (leaderCertified slot value) 1))]

/-- A node prepares the named seal of slot one. -/
def preparesSeal (name : Byte) (node : NodeID) : List CouncilEvent :=
  [.prepare node (firstSeal name) (sealBytes name), .proceed (.perform node .sync),
    .proceed (.perform node (.finish 0))]

def firstSlotEvents : List CouncilEvent :=
  leaderSends 1 [7] ++ answersInline [66] (leaderOffer 1 [7]) ++
    answersInline [67] (leaderOffer 1 [7]) ++ leaderDecides 1 [7] [[65], [66], [67]]

/-- Two voters prepare the seal "3" and vote for it. -/
def preparedEvents : List CouncilEvent :=
  [[66], [67]].flatMap (preparesSeal 3) ++ leaderSends 2 (sealBytes 3) ++
    answersInline [66] (leaderOffer 2 (sealBytes 3)) ++
    answersInline [67] (leaderOffer 2 (sealBytes 3)) ++ leaderDecides 2 (sealBytes 3) [[65]]

/-- Two voters that have prepared nothing get an offer of a seal without its bytes. -/
def lateEvents (slot : ℕ) (name : Byte) : List CouncilEvent :=
  leaderSends slot (sealBytes name) ++
    [[66], [67]].flatMap (answersLate slot (sealBytes name)) ++
    leaderDecides slot (sealBytes name) [[65]]

/-- The check outside the lock has the bytes of its offer in memory, whatever they are. -/
def Finds (council : Council) : CouncilEvent → Prop
  | .validate node request =>
    ((council.world.core node).values.lookup request.proposal.hash).isSome
  | _ => True

instance (council : Council) : ∀ event, Decidable (council.Finds event)
  | .validate _ _ => inferInstanceAs (Decidable (Option.isSome _ = true))
  | .proceed _ | .strip _ _ | .credit _ _ | .record _ _ | .prepare _ _ _ | .resume _ _ =>
    inferInstanceAs (Decidable True)

theorem Finds.safe {event : CouncilEvent} (hfinds : council.Finds event) (codec : Codec) :
    council.Safe codec event := by
  rintro node request value checkpoint rfl - -
  exact hfinds

theorem checkpoints_agree_prepared : ∃ council,
    (initial World.trio).run (sealing firstSeal) (firstSlotEvents ++ preparedEvents) =
        some council ∧
      council.history [66] = [.prepared 1 3, .voted (firstSeal 3)] ∧
      council.Prepared ∧ council.SealsAgree (sealing firstSeal) := by
  have hfinds : Guarded (step (sealing firstSeal)) Finds
      (initial World.trio) (firstSlotEvents ++ preparedEvents) := by
    decide +kernel
  have hsafe := hfinds.imp fun council event hfinds => hfinds.safe (sealing firstSeal)
  obtain ⟨council, hrun, hhistory⟩ : ∃ council, (initial World.trio).run (sealing firstSeal)
      (firstSlotEvents ++ preparedEvents) = some council ∧
        council.history [66] = [.prepared 1 3, .voted (firstSeal 3)] := by
    decide +kernel
  exact ⟨council, hrun, hhistory,
    checkpoints_agree (sealing firstSeal) digest_injective World.trio rfl _ council hsafe hrun⟩

/-- Offers without bytes pass the check outside the lock; once the bytes are staged, two
voters that have prepared nothing vote for two roots at one index, and the node that
learns both reports the conflict. -/
theorem checkpoints_conflict : ∃ council,
    (initial World.trio).run (sealing firstSeal)
        (firstSlotEvents ++ lateEvents 2 3 ++ lateEvents 3 4) = some council ∧
      council.history [66] = [.voted (firstSeal 3), .voted (firstSeal 4)] ∧
      ¬ council.Prepared ∧ ¬ council.SealsAgree (sealing firstSeal) := by
  obtain ⟨council, hrun, hhistory, hreport⟩ : ∃ council, (initial World.trio).run
      (sealing firstSeal) (firstSlotEvents ++ lateEvents 2 3 ++ lateEvents 3 4) = some council ∧
        council.history [66] = [.voted (firstSeal 3), .voted (firstSeal 4)] ∧
        (latestCheckpointSeal
          (council.world.core [65]).sealedRoots.entries).toOption.isNone := by
    decide +kernel
  refine ⟨council, hrun, hhistory, fun hprepared => ?_, fun hagree => ?_⟩
  · exact List.not_mem_nil (hprepared [66] [] (firstSeal 3) _ hhistory)
  · obtain ⟨latest, hlatest⟩ := hagree.reported [65] _ (List.Perm.refl _)
    rw [hlatest] at hreport
    cases hreport

end Runs

end Council

end Rhiza.QuePaxa
