import Rhiza.QuePaxa.Consensus

/-! # Sections of a replica keep the consensus invariant

Quiet sections change nothing the invariant speaks about. A record adds one answer,
from the register or from a known decision; an installation adds a decision and
drops the register of its slot. The schedules that a compaction takes along are schedules
of the cluster: they come from the rotation of the first epochs, from a decided control
slot, or from the base of an earlier compaction.
-/

namespace Rhiza.QuePaxa

open Foundations

namespace World

variable {codec : Codec} {config : Cluster} {world later : World} {node : NodeID}
variable {action : Action}

/-- What a section other than a crash does to the world. -/
theorem perform_eq_some (hact : world.perform codec node action = some later)
    (hcrash : action ≠ .crash) :
    world.delivers node action = true ∧ ∃ replica,
      (world.replicas node).step codec action = some replica ∧
      later = { world with
        replicas := Function.update world.replicas node replica
        answers := world.answers ++ newAnswers codec (world.replicas node) action
        replies := world.replies ++ newReplies (world.replicas node) action } := by
  unfold perform at hact
  split at hact
  · rename_i hhand
    simp only [Option.bind_eq_bind, Option.bind_eq_some_iff] at hact
    obtain ⟨replica, hstep, ⟨⟩⟩ := hact
    exact ⟨hhand, replica, hstep, rfl⟩
  · cases hact

variable {request : RecordRequest} {replica : Replica} {summary : Summary}
  {replicas : NodeID → Replica} {reserved : List (NodeID × ℕ)} {eligible : Bool}

/-- A reply was a waiting answer. -/
theorem mem_newReplies
    (hmem : (request, summary) ∈ newReplies replica action) :
    ∃ completion flushed,
      (Pending.record request summary completion, flushed) ∈ replica.pending := by
  unfold newReplies at hmem
  split at hmem
  · split at hmem
    · rename_i heq
      obtain ⟨rfl, rfl⟩ := Prod.mk.inj (List.mem_singleton.mp hmem)
      exact ⟨_, _, List.mem_of_getElem? heq⟩
    · cases hmem
  · cases hmem

/-- The protocol facts do not depend on the replicas. -/
theorem Protocol.of_replies (hproto : world.Protocol config)
    {replies : List (RecordRequest × Summary)}
    (hreply : ∀ {request summary}, (request, summary) ∈ replies →
      ∃ register, ⟨request, summary, register⟩ ∈ world.answers) :
    ({ world with replicas, replies, reserved } : World).Protocol config :=
  ⟨hproto.answered, hreply, hproto.requested, hproto.threads,
    hproto.first_stable, hproto.prior_dominates, hproto.certified⟩

theorem Coherent.reply_answered (hlaw : world.Coherent codec config)
    (hmem : (request, summary) ∈ world.replies ++ newReplies (world.replicas node) action) :
    ∃ register, ⟨request, summary, register⟩ ∈ world.answers := by
  rcases List.mem_append.mp hmem with hmem | hmem
  · exact hlaw.protocol.replied hmem
  · obtain ⟨completion, flushed, hpend⟩ := mem_newReplies hmem
    exact (hlaw.atNode node).pending hpend

/-- A new replica of a node that votes the same keeps the invariant. -/
theorem Coherent.setReplica (hlaw : world.Coherent codec config)
    (hvotes : replica.core.votes = (world.core node).votes)
    (hcalls : world.InFlight codec config node replica) :
    ({ world with
        replicas := Function.update world.replicas node replica, reserved } : World).Coherent
      codec config := by
  refine hlaw.of_node world.grows_same rfl (fun hmem _ _ => hmem) (fun hrep => ?_)
    (hlaw.protocol.of_replies hlaw.protocol.replied)
  refine (hlaw.atNode node).of_votes world.grows_same ?_ ?_ fun hmem _ _ => hmem
  · rw [World.core, hrep]
    exact hvotes
  · rw [hrep]
    exact hcalls.grow world.grows_same

theorem Coherent.perform_quiet (hlaw : world.Coherent codec config)
    (hquiet : action.quiet = true) (hact : world.perform codec node action = some later) :
    later.Coherent codec config := by
  have hcrash : action ≠ .crash := by rintro rfl; cases hquiet
  obtain ⟨hhand, replica, hstep, rfl⟩ := perform_eq_some hact hcrash
  have hsteps := Replica.step_quiet hquiet hstep
  have hnone : newAnswers codec (world.replicas node) action = [] := by
    cases action <;> first | rfl | cases hquiet
  rw [hnone, List.append_nil]
  have hlocal := hlaw.atNode node
  refine hlaw.of_node world.grows_same rfl (fun hmem _ _ => hmem) (fun hrep => ?_)
    (hlaw.protocol.of_replies hlaw.reply_answered)
  refine hlocal.of_votes world.grows_same ?_ ?_ fun hmem _ _ => hmem
  · rw [World.core, hrep]
    exact congrArg Ledger.votes hsteps.ledger
  · rw [hrep]
    refine InFlight.grow ⟨?_, ?_, ?_, ?_⟩ world.grows_same
    · rw [hsteps.compaction]
      exact hlocal.compacting
    · intro request hask
      rcases hsteps.admitted hask with hold | ⟨admission, rfl⟩
      · exact hlocal.admitted hold
      · exact of_decide_eq_true hhand
    · intro decision configID hvet
      rcases hsteps.checked hvet with hold | ⟨rfl, hcheck⟩
      · exact hlocal.checked hold
      · refine ⟨of_decide_eq_true hhand, ?_⟩
        simp only [Core.acceptCheck, Core.validateDecisionAtFloor,
          Core.validateDecisionForRecovery, seq_eq_ok, require_eq_ok] at hcheck
        exact hcheck.1.2.1.2
    · intro request summary completion flushed hpend
      obtain ⟨flushed', hold⟩ := hsteps.pending hpend rfl
      exact hlocal.pending hold

/-- A record section adds its answer and waits with it. -/
theorem perform_record
    (hact : world.perform codec node (.record request eligible) = some later) :
    ∃ core summary completion,
      request ∈ (world.replicas node).admitted ∧
      (world.core node).recordApply codec request eligible = .ok (core, summary, completion) ∧
      later = { world with
        replicas := Function.update world.replicas node { world.replicas node with
          core
          pending := (world.replicas node).wait (.record request summary completion) }
        answers := world.answers ++ [⟨request, summary, completion.fromRegister⟩] } := by
  obtain ⟨-, replica, hstep, rfl⟩ := perform_eq_some hact nofun
  simp only [Replica.step, Option.bind_eq_bind] at hstep
  split at hstep
  · rename_i hlet
    simp only [Option.bind_eq_some_iff, toOption_eq_some] at hstep
    obtain ⟨⟨core, summary, completion⟩, hjot, ⟨⟩⟩ := hstep
    refine ⟨core, summary, completion, hlet, hjot, ?_⟩
    simp only [newAnswers, newReplies, hjot, Except.toOption, List.append_nil]
  · cases hstep

/-- The answer from a known decision repeats a decision of the cluster. -/
theorem Local.echo_source (hlocal : world.Local codec config node) {decided : DecidedValue}
    (hdec : (world.core node).decided.lookup request.slot = some decided) :
    world.AnswerSource ⟨request, (world.core node).decidedSummary request decided, false⟩ := by
  obtain ⟨-, -, -, -, decision, hmem, hslot, hstep, hrank⟩ := hlocal.installed hdec
  have hkey : some decided.decision.proposal.rank = some decision.proposal.rank :=
    congrArg some hrank.symm
  have hstep : max decided.decision.step request.step = max decision.step request.step :=
    congrArg (max · request.step) hstep.symm
  exact .inr ⟨rfl, decision, hmem, hslot, hstep, hkey, hkey⟩

/-- With one more answer, a record is an older one or shown by that answer. -/
theorem recorded_append {added : Answer} {slot step : ℕ} {recorder : NodeID}
    {offer first : Rank} {prior : Option Rank}
    (hrec : (({ world with replicas, answers := world.answers ++ [added] } : World).history
      slot).Recorded recorder step offer first prior) :
    (∃ answer ∈ world.answers, answer.register = true ∧
      answer.Shows slot recorder step offer first prior) ∨
    added.register = true ∧ added.Shows slot recorder step offer first prior := by
  obtain ⟨answer, hmem, hshown⟩ := hrec
  rcases List.mem_append.mp hmem with hmem | hmem
  · exact .inl ⟨answer, hmem, hshown⟩
  · rw [List.mem_singleton.mp hmem] at hshown
    exact .inr hshown

/-- An answer to a sent request extends the protocol facts when it is no register
answer. -/
theorem Protocol.add_echo (hproto : world.Protocol config)
    (hsent : (summary.recorderID, request) ∈ world.requests)
    (hfrom : world.AnswerSource ⟨request, summary, false⟩) :
    ({ world with replicas, answers := world.answers ++ [⟨request, summary, false⟩] } :
      World).Protocol config := by
  -- The history is the same: echoes are not records.
  have hrec : ∀ {slot recorder step offer first prior},
      (({ world with replicas, answers := world.answers ++ [⟨request, summary, false⟩] } :
        World).history slot).Recorded recorder step offer first prior →
      (world.history slot).Recorded recorder step offer first prior := by
    intro slot recorder step offer first prior hrec
    exact (recorded_append hrec).elim id fun hnew => nomatch hnew.1
  refine hproto.grow world.grows_answers (fun hmem => ?_) .inl (fun hmem => .inl ⟨_, hmem⟩) .inl
    (fun hleft hright => hproto.first_stable (hrec hleft) (hrec hright))
    (fun hleft hright => hproto.prior_dominates (hrec hleft) (hrec hright)) .inl
  refine (List.mem_append.mp hmem).imp_right fun hnew => ?_
  rw [List.mem_singleton.mp hnew]
  exact ⟨hsent, hfrom.grow world.grows_answers⟩

section Register

variable {request : RecordRequest} {completion : Completion}

/-- The register of a node after an offer. -/
def nextRegister (world : World) (node : NodeID) (request : RecordRequest) : ISR :=
  ((world.core node).recorder request.slot).next request.step request.proposal.ref

/-- The answer the register gives, up to the promise it carries. -/
def registerAnswer (world : World) (node : NodeID) (request : RecordRequest)
    (reconfigurationID : ValueHash) : Answer where
  request
  summary :=
    { recorderID := node
      reconfigurationID
      step := (world.nextRegister node request).step
      firstCurrent := (world.nextRegister node request).firstCurrent
      aggregatePrior := (world.nextRegister node request).aggregatePrior }
  register := true

theorem answerRegister_spec {core : Core} {summary : Summary}
    (hnode : (world.core node).nodeID = node)
    (hsay : (world.core node).answerRegister request = (core, summary, completion)) :
    ∃ id, summary = (world.registerAnswer node request id).summary ∧
      completion = .syncValue request.proposal.hash (world.nextRegister node request) ∧
      core = { world.core node with
        wal := (world.core node).wal.append (.receipt request.slot request.proposal.hash
          (world.nextRegister node request) (world.core node).reconfigEnabled)
        recorders := (world.core node).recorders.insert request.slot
          (world.nextRegister node request) } := by
  cases hsay
  refine ⟨if (world.core node).reconfigEnabled then request.reconfigurationID else 0, ?_, rfl, rfl⟩
  simp only [registerAnswer, hnode]
  rfl

section Offer

variable (hlocal : world.Local codec config node) (hsent : (node, request) ∈ world.requests)
include hlocal hsent

theorem Local.nextRegister_sourced :
    (world.nextRegister node request).Sourced (world.history request.slot).Sent :=
  (hlocal.sourced request.slot).next ⟨(node, request), hsent, rfl, rfl, rfl⟩

theorem Local.register_source (hfour : 4 ≤ request.step) (id : ValueHash) :
    world.AnswerSource (world.registerAnswer node request id) := by
  have hstep : request.step ≤ (world.nextRegister node request).step := by
    rw [nextRegister, ISR.next_step]
    exact le_max_right _ _
  exact .inl ⟨rfl, _, hlocal.nextRegister_sourced hsent, Nat.lt_of_lt_of_le (by omega) hstep,
    hstep, rfl, rfl, rfl⟩

end Offer

/-- The register still shows an older answer of its node after the offer. -/
theorem Local.nextRegister_remembers (hlocal : world.Local codec config node)
    (hfloor : (world.core node).floor < request.slot)
    (hunset : (world.core node).decided.lookup request.slot = none) {answer : Answer}
    (hmem : answer ∈ world.answers) (hreg : answer.register = true) {step : ℕ}
    {offer first : Rank} {prior : Option Rank}
    (hshows : answer.Shows request.slot node step offer first prior) :
    (world.nextRegister node request).Remembers step offer answer.summary.firstCurrent
      answer.summary.aggregatePrior := by
  obtain ⟨hslot, hnode, hstep, hnow, hoffer, -, -⟩ := hshows
  have hrecall := hlocal.remembers hmem hreg hnode (hnow.trans hstep.symm)
    (hslot ▸ hfloor) (hslot ▸ hunset)
  rw [hslot, hstep, hoffer] at hrecall
  exact hrecall.next request.step request.proposal.ref

/-- The answer of a register is consistent with all answers it gave before. -/
theorem Protocol.add_register (hproto : world.Protocol config)
    (hlocal : world.Local codec config node) (hsent : (node, request) ∈ world.requests)
    (hfloor : (world.core node).floor < request.slot)
    (hunset : (world.core node).decided.lookup request.slot = none)
    {replicas : NodeID → Replica} (id : ValueHash) :
    ({ world with
        replicas, answers := world.answers ++ [world.registerAnswer node request id] } :
      World).Protocol config := by
  have hfour := (hproto.requested hsent).1
  refine hproto.grow world.grows_answers (fun hmem => ?_) .inl (fun hmem => .inl ⟨_, hmem⟩) .inl
    ?_ ?_ .inl
  · refine (List.mem_append.mp hmem).imp_right fun hnew => ?_
    rw [List.mem_singleton.mp hnew]
    exact ⟨hsent, (hlocal.register_source hsent hfour id).grow world.grows_answers⟩
  · have hmixed : ∀ {slot recorder step offer offer' first first' prior prior'} {answer : Answer},
        answer ∈ world.answers → answer.register = true →
        answer.Shows slot recorder step offer first prior →
        (world.registerAnswer node request id).Shows slot recorder step offer' first' prior' →
        first = first' := by
      intro slot recorder step offer offer' first first' prior prior' answer hmem hreg
        hshows hnew
      obtain ⟨rfl, rfl, -, hnow', -, hfirst', -⟩ := hnew
      have hrecall := hlocal.nextRegister_remembers hfloor hunset hmem hreg hshows
      have hsame := (hrecall.current hnow').1
      have hfirst := hshows.first_eq
      rw [← hsame] at hfirst
      exact Option.some_inj.mp (hfirst.symm.trans hfirst')
    intro slot recorder step offer offer' first first' prior prior' hleft hright
    rcases recorded_append hleft with hleft | ⟨-, hshows⟩ <;>
      rcases recorded_append hright with hright | ⟨-, hshows'⟩
    · exact hproto.first_stable hleft hright
    · obtain ⟨left, hmem, hreg, hshows⟩ := hleft
      exact hmixed hmem hreg hshows hshows'
    · obtain ⟨right, hmem, hreg, hshows'⟩ := hright
      exact (hmixed hmem hreg hshows' hshows).symm
    · exact Option.some_inj.mp (hshows.first_eq.symm.trans hshows'.first_eq)
  · intro slot recorder step offer offer' first first' prior prior' hleft hright
    rcases recorded_append hleft with hleft | ⟨-, hshows⟩
    · rcases recorded_append hright with hright | ⟨-, hshows'⟩
      · exact hproto.prior_dominates hleft hright
      · obtain ⟨left, hmem, hreg, hshows⟩ := hleft
        obtain ⟨rfl, rfl, -, hnow', -, -, hprior'⟩ := hshows'
        have hrecall := hlocal.nextRegister_remembers hfloor hunset hmem hreg hshows
        obtain ⟨bound, hbound, hle⟩ := exists_of_le_rankOf (hrecall.following hnow')
        exact ⟨bound, hprior'.symm.trans hbound, hle⟩
    · rcases recorded_append hright with ⟨right, hmem, hreg, hshows'⟩ | ⟨-, hshows'⟩
      · -- An older answer cannot be ahead of the register.
        obtain ⟨rfl, rfl, -, hnow, -, -, -⟩ := hshows
        have hrecall := hlocal.nextRegister_remembers hfloor hunset hmem hreg hshows'
        have hle := hrecall.step_le
        have hstep : (world.nextRegister node request).step = step := hnow
        omega
      · have hstep := hshows.step_eq.symm.trans hshows'.step_eq
        omega

/-- The node that answered from its register. -/
theorem Local.of_register (hlocal : world.Local codec config node)
    (hsent : (node, request) ∈ world.requests)
    {wal : WAL} (id : ValueHash) (hgrows : world.Grows later)
    (hsaid : later.answers = world.answers ++ [world.registerAnswer node request id])
    (hrep : later.replicas node = { world.replicas node with
      core := { world.core node with
        wal
        recorders := (world.core node).recorders.insert request.slot
          (world.nextRegister node request) }
      pending := (world.replicas node).wait
        (.record request (world.registerAnswer node request id).summary completion) }) :
    later.Local codec config node := by
  have hpeer : ∀ slot, (((world.core node).recorders.insert request.slot
      (world.nextRegister node request)).lookup slot).getD ISR.empty =
      if slot = request.slot then world.nextRegister node request
      else (world.core node).recorder slot := by
    intro slot
    rw [Table.lookup_insert_eq]
    split <;> rfl
  have hcalls : later.InFlight codec config node (later.replicas node) := by
    rw [hrep]
    have hsay : world.registerAnswer node request id ∈ later.answers := by
      rw [hsaid]
      exact List.mem_append_right _ List.mem_cons_self
    exact ((hlocal.inFlight _).grow hgrows).wait hsay
  refine hlocal.of_core hgrows (congrArg (·.core.votes) hrep) hcalls ?_ ?_ ?_
  · exact fun hdec => (hlocal.installed hdec).grow hgrows
  · intro slot
    rw [hpeer]
    split
    · rename_i heq
      rw [heq]
      exact (hlocal.nextRegister_sourced hsent).mono (hgrows.extends _).sent
    · exact (hlocal.sourced slot).mono (hgrows.extends _).sent
  · intro answer hmem hreg hnode hnow hfloor hfree
    rw [hpeer]
    rw [hsaid] at hmem
    rcases List.mem_append.mp hmem with hmem | hmem
    · have hrecall := hlocal.remembers hmem hreg hnode hnow hfloor hfree
      split
      · rename_i heq
        rw [heq] at hrecall
        exact hrecall.next request.step request.proposal.ref
      · exact hrecall
    · rw [List.mem_singleton.mp hmem] at hnow ⊢
      rw [if_pos (show (world.registerAnswer node request id).request.slot = request.slot from rfl)]
      exact ISR.remembers_of_current hnow

end Register

theorem Coherent.perform_record (hlaw : world.Coherent codec config)
    (hact : world.perform codec node (.record request eligible) = some later) :
    later.Coherent codec config := by
  obtain ⟨core, summary, completion, hlet, hjot, rfl⟩ := World.perform_record hact
  have hlocal := hlaw.atNode node
  have hsent := hlocal.admitted hlet
  obtain ⟨hguard, hcases⟩ := Core.recordApply_cases hjot
  rcases hcases with ⟨decided, hdec, hsay⟩ | ⟨hunset, -, -, hsay⟩
  · obtain ⟨hmarks, rfl, hreg⟩ := Core.answerDecided_spec hdec hsay
    rw [hreg]
    have hold : ∀ {answer}, answer ∈ world.answers ++
        [⟨request, (world.core node).decidedSummary request decided, false⟩] →
        answer.register = true → answer ∈ world.answers := by
      intro answer hmem hreg
      rcases List.mem_append.mp hmem with hmem | hmem
      · exact hmem
      · rw [List.mem_singleton.mp hmem] at hreg
        cases hreg
    refine hlaw.of_node world.grows_answers rfl (fun hmem hreg _ => hold hmem hreg)
      (fun hrep => ?_) ?_
    · refine hlocal.of_votes world.grows_answers ?_ ?_ fun hmem hreg _ => hold hmem hreg
      · rw [World.core, hrep]
        exact congrArg Ledger.votes hmarks.ledger
      · rw [hrep]
        exact ((hlocal.inFlight _).grow world.grows_answers).wait
          (List.mem_append_right _ List.mem_cons_self)
    · refine hlaw.protocol.add_echo ?_ (hlocal.echo_source hdec)
      change ((world.core node).nodeID, request) ∈ world.requests
      rw [hlocal.nodeID]
      exact hsent
  · obtain ⟨id, rfl, rfl, rfl⟩ := answerRegister_spec hlocal.nodeID hsay
    refine hlaw.of_node world.grows_answers rfl ?_
      (hlocal.of_register hsent id world.grows_answers rfl) ?_
    · intro answer hmem _ hnode
      rcases List.mem_append.mp hmem with hmem | hmem
      · exact hmem
      · rw [List.mem_singleton.mp hmem] at hnode
        exact absurd rfl hnode
    · exact hlaw.protocol.add_register hlocal hsent (Core.recordGuard_floor_lt hguard)
        hunset id

section Install

variable {decision : Decision} {configID : ℕ}

theorem perform_install
    (hact : world.perform codec node (.install decision configID) = some later) :
    (decision, configID) ∈ (world.replicas node).checked ∧
      later = { world with
        replicas := Function.update world.replicas node { world.replicas node with
          core := ((world.core node).acceptInstall codec decision configID).1
          checked := (world.replicas node).checked.erase (decision, configID) } } := by
  obtain ⟨-, replica, hstep, rfl⟩ := perform_eq_some hact nofun
  simp only [Replica.step] at hstep
  split at hstep
  · rename_i hvet
    cases hstep
    refine ⟨hvet, ?_⟩
    simp only [newAnswers, newReplies, List.append_nil]
    rfl
  · cases hstep

/-- The value that an installation stores for its slot. -/
def installedValue (decision : Decision) (configID : ℕ) : DecidedValue where
  slot := decision.slot
  hash := decision.proposal.hash
  value := decision.proposal.value
  certificate := encodeCertificate configID { decision with configID }

/-- The node that installed a decision of the cluster. -/
theorem Local.of_install (hlocal : world.Local codec config node)
    (hvet : (decision, configID) ∈ (world.replicas node).checked)
    (hgrows : world.Grows later) (hsaid : later.answers = world.answers)
    (hrep : later.replicas node = { world.replicas node with
      core := ((world.core node).acceptInstall codec decision configID).1
      checked := (world.replicas node).checked.erase (decision, configID) }) :
    later.Local codec config node := by
  have hcalls : later.InFlight codec config node (later.replicas node) := by
    rw [hrep]
    exact InFlight.grow ⟨hlocal.compacting, hlocal.admitted,
      fun hmem => hlocal.checked (List.mem_of_mem_erase hmem), hlocal.pending⟩ hgrows
  have hcore : later.core node = ((world.core node).acceptInstall codec decision configID).1 :=
    congrArg Replica.core hrep
  rcases Core.acceptInstall_cases codec (world.core node) decision configID with hgo |
      ⟨-, -, hgo⟩
  · have hvotes := hgo.votes
    rw [← hcore] at hvotes
    exact hlocal.of_votes hgrows hvotes hcalls fun hmem _ _ => hsaid ▸ hmem
  · have hvotes : (later.core node).votes = { world.core node with
        decided := (world.core node).decided.insert decision.slot (installedValue decision configID)
        recorders := (world.core node).recorders.erase decision.slot }.votes := by
      rw [hcore]
      exact hgo.votes
    obtain ⟨hmem, hhash⟩ := hlocal.checked hvet
    have hpeer : ∀ slot, (((world.core node).recorders.erase decision.slot).lookup slot).getD
        ISR.empty =
          if slot = decision.slot then ISR.empty else (world.core node).recorder slot := by
      intro slot
      rw [Table.lookup_erase_eq]
      split <;> rfl
    refine hlocal.of_core hgrows hvotes hcalls ?_ ?_ ?_
    · intro slot decided hslot
      rcases Table.of_lookup_insert hslot with ⟨heq, rfl⟩ | hslot
      · exact ⟨heq.symm, hhash, heq.symm, rfl, decision, hgrows.mem_decisions hmem, heq.symm,
          rfl, rfl⟩
      · exact (hlocal.installed hslot).grow hgrows
    · intro slot
      rw [hpeer]
      split
      · exact ISR.sourced_empty _
      · exact (hlocal.sourced slot).mono (hgrows.extends slot).sent
    · intro answer hmem hreg hnode hnow hfloor hfree
      rw [Table.lookup_insert_eq] at hfree
      rw [hpeer]
      split at hfree
      · cases hfree
      · rename_i hne
        rw [if_neg hne]
        rw [hsaid] at hmem
        exact hlocal.remembers hmem hreg hnode hnow hfloor hfree

theorem Coherent.perform_install (hlaw : world.Coherent codec config)
    (hact : world.perform codec node (.install decision configID) = some later) :
    later.Coherent codec config := by
  obtain ⟨hvet, rfl⟩ := World.perform_install hact
  exact hlaw.of_node world.grows_same rfl (fun hmem _ _ => hmem)
    ((hlaw.atNode node).of_install hvet world.grows_same rfl)
    (hlaw.protocol.of_replies hlaw.protocol.replied)

end Install

/-! ## Compactions -/

section Commit

variable (hlocal : world.Local codec config node) {core : Core} {running : RunningCompaction}
include hlocal

/-- Whatever a node takes as the schedule of a slot is the schedule of the slot. -/
theorem Local.leaderOrder_scheduled {slot : ℕ} {order : List NodeID}
    (horder : (world.core node).leaderOrder codec slot = .ok order) :
    world.Scheduled codec config slot order := by
  simp only [Core.leaderOrder, hlocal.fixed, Core.explorationEpochs, hlocal.config_eq,
    Bool.false_eq_true, if_false] at horder
  split at horder
  · rename_i hlt
    cases horder
    exact .inl ⟨hlt, rfl⟩
  · rename_i hge
    split at horder
    · rename_i decided hdec
      exact .inr ⟨Nat.le_of_not_lt hge, decided, hlocal.installed hdec, horder⟩
    · simp only [Core.baseSchedule, Core.leaderEpochKey, hlocal.fixed, Bool.false_eq_true,
        if_false] at horder
      split at horder
      · rename_i hbase
        cases horder
        exact hlocal.baseLeader hbase.2 hbase.1
      · split at horder
        · rename_i hbase
          cases horder
          exact hlocal.baseFollowing hbase.2 hbase.1
        · cases horder

/-- The schedules of a recovery base are the ones of the epochs it names. -/
theorem Local.checkpointLeaderOrders_kept {index : ℕ} {next following : List NodeID}
    (horders : (world.core node).checkpointLeaderOrders codec index = .ok (next, following)) :
    world.KeptSchedule codec config (leaderEpoch (index + 1)) next ∧
      world.KeptSchedule codec config (leaderEpoch (index + 1) + 1) following := by
  simp only [Core.checkpointLeaderOrders, Core.checkpointEpoch, hlocal.fixed, Bool.false_eq_true,
    if_false] at horders
  split at horders
  · cases horders
  rename_i first hfirst
  have hnext : world.KeptSchedule codec config (leaderEpoch (index + 1)) first :=
    fun _ _ hepoch => (hlocal.leaderOrder_scheduled hfirst).of_epoch hepoch
  split at horders
  · cases horders
    exact ⟨hnext, fun hne => absurd rfl hne⟩
  · split at horders
    · cases horders
    rename_i second htwo
    cases horders
    refine ⟨hnext, fun _ _ hepoch => (hlocal.leaderOrder_scheduled htwo).of_epoch ?_⟩
    rw [hepoch, leaderEpoch, leaderEpoch, if_neg (Nat.succ_ne_zero index), if_neg (by omega),
      leaderEpochSize]
    omega

/-- What the fence of a compaction takes along. -/
theorem Local.compactBegin_kept {through : ℕ} {recoveryRoot : ValueHash}
    (hbegin : (world.core node).compactBegin codec through recoveryRoot = .ok (core, running)) :
    world.KeptSchedule codec config running.base.leaderEpoch running.base.nextLeaderOrder ∧
      world.KeptSchedule codec config (running.base.leaderEpoch + 1)
        running.base.followingLeaderOrder := by
  obtain ⟨-, -, -, -, horders, hepoch, -⟩ := Core.compactBegin_eq_ok hbegin
  simp only [hepoch, Core.leaderEpochKey, hlocal.fixed, Bool.false_eq_true, if_false]
  exact hlocal.checkpointLeaderOrders_kept horders

/-- The node that switched to a compacted log. Below the new floor it neither answers
nor remembers. -/
theorem Local.of_commit
    (hgoing : (world.replicas node).compaction = some running)
    (hsave : (world.core node).compactCommit codec running = .ok core)
    (hgrows : world.Grows later) (hsaid : later.answers = world.answers)
    (hrep : later.replicas node =
      { world.replicas node with core, compaction := some { running with committed := true } }) :
    later.Local codec config node := by
  obtain ⟨hfloor, verifier, hcore⟩ := Core.compactCommit_eq_ok hsave
  have hcalls : later.InFlight codec config node (world.replicas node) :=
    (hlocal.inFlight _).grow hgrows
  obtain ⟨hnext, hfollowing⟩ := hcalls.compacting hgoing
  have hlater : later.core node = core := congrArg Replica.core hrep
  have hpeer : ∀ slot, core.recorder slot =
      if running.base.closedThrough < slot then (world.core node).recorder slot
      else ISR.empty := by
    intro slot
    rw [hcore]
    simp only [Core.recorder, Core.pruneSlotAllocator, Core.installVerifiedBase, Core.installBase,
      Core.dropUnusedValues, Table.lookup_restrict, decide_eq_true_eq]
    split <;> rfl
  refine ⟨?_, ?_, ?_, ?_, ?_, ?_, ?_, ?_, ?_, ?_, ?_, ?_⟩
  · rw [hlater, hcore]; exact hlocal.nodeID
  · rw [hlater, hcore]; exact hlocal.config_eq
  · rw [hlater, hcore]; exact hlocal.fixed
  · rw [hlater, hcore]; exact hnext
  · rw [hlater, hcore]
    intro hne slot hepoch
    refine hfollowing hne (hepoch.trans ?_)
    have hfixed : (world.core node).reconfigEnabled = false := hlocal.fixed
    simp only [Core.pruneSlotAllocator, Core.installVerifiedBase, Core.installBase,
      Core.dropUnusedValues, hfixed, Bool.false_eq_true, if_false]
    exact if_neg hne
  · intro other hother
    rw [hrep] at hother
    cases hother
    exact ⟨hnext, hfollowing⟩
  · rw [hrep]; exact hcalls.admitted
  · rw [hrep]; exact hcalls.checked
  · rw [hrep]; exact hcalls.pending
  · intro slot decided hslot
    rw [hlater, hcore] at hslot
    exact (hlocal.installed (Table.lookup_restrict_some.mp hslot).1).grow hgrows
  · intro slot
    rw [hlater, hpeer]
    split
    · exact (hlocal.sourced slot).mono (hgrows.extends slot).sent
    · exact ISR.sourced_empty _
  · intro answer hmem hreg hnode hnow hslot hunset
    rw [hlater, hcore] at hslot hunset
    have habove : running.base.closedThrough < answer.request.slot := hslot
    have hkept : ((world.core node).decided.restrict (running.base.closedThrough < ·)).lookup
        answer.request.slot = none := hunset
    rw [Table.lookup_restrict, if_pos (decide_eq_true habove)] at hkept
    rw [hlater, hpeer, if_pos habove]
    rw [hsaid] at hmem
    exact hlocal.remembers hmem hreg hnode hnow (hfloor.trans habove) hkept

end Commit

/-- Every section of a replica short of a crash keeps the consensus invariant. -/
theorem Coherent.perform (hlaw : world.Coherent codec config) {action : Action}
    (hcrash : action ≠ .crash) (hact : world.perform codec node action = some later) :
    later.Coherent codec config := by
  by_cases hquiet : action.quiet = true
  · exact hlaw.perform_quiet hquiet hact
  obtain ⟨-, replica, hstep, hlater⟩ := perform_eq_some hact hcrash
  have hlocal := hlaw.atNode node
  cases Replica.step_performs hstep with
  | record => exact hlaw.perform_record hact
  | install => exact hlaw.perform_install hact
  | compactBegin _ _ _ hbegin =>
    simp only [newAnswers, newReplies, List.append_nil] at hlater
    rw [hlater]
    refine hlaw.setReplica ?_ ⟨?_, hlocal.admitted, hlocal.checked, hlocal.pending⟩
    · obtain ⟨rfl, -⟩ := Core.compactBegin_eq_ok hbegin
      rfl
    · rintro _ ⟨⟩
      exact hlocal.compactBegin_kept hbegin
  | compactCommit hgoing _ _ hsave =>
    simp only [newAnswers, newReplies, List.append_nil] at hlater
    subst hlater
    exact hlaw.of_node world.grows_same rfl (fun hmem _ _ => hmem)
      (hlocal.of_commit hgoing hsave world.grows_same rfl)
      (hlaw.protocol.of_replies hlaw.protocol.replied)
  | compactFinish =>
    simp only [newAnswers, newReplies, List.append_nil] at hlater
    rw [hlater]
    exact hlaw.setReplica rfl ⟨by simp, hlocal.admitted, hlocal.checked, hlocal.pending⟩
  | crash => exact absurd rfl hcrash
  | _ => exact absurd rfl hquiet

end World

end Rhiza.QuePaxa
