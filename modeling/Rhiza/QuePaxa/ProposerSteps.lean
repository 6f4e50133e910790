import Rhiza.QuePaxa.RecorderSteps

/-! # Turns of a proposer keep the consensus invariant

A turn sends the proposal it inherited, and a quorum of answers gives it the next one.
The answers of a turn are records of the slot's history, or echoes of decisions that
were returned before.
-/

namespace Rhiza.QuePaxa

open Foundations

/-- The allocator changes its counter and the vacant slots. -/
theorem Core.reserveSlot_eq (core : Core) :
    ∃ nextSlot vacant, core.reserveSlot.1 = { core with nextSlot, vacant } := by
  unfold Core.reserveSlot
  split <;> exact ⟨_, _, rfl⟩

theorem Core.releaseSlot_eq (core : Core) (slot : ℕ) :
    ∃ nextSlot vacant, core.releaseSlot slot = { core with nextSlot, vacant } := by
  unfold Core.releaseSlot
  split <;> exact ⟨_, _, rfl⟩

namespace World

variable {codec : Codec} {config : Cluster} {world later : World} {node : NodeID}

variable {reserved : List (NodeID × ℕ)} {decision : Decision} {slot : ℕ} {decided : DecidedValue}
  {core : Core}

/-- Threads, reservations and replicas are no part of the history. -/
theorem Protocol.of_threads (hproto : world.Protocol config) {threads : Table ℕ Thread}
    {replicas : NodeID → Replica}
    (hjobs : ∀ {id thread}, threads.lookup id = some thread →
      Descends config world thread.proposer.slot thread.proposer.step thread.proposer.proposal ∧
        ∀ offer ∈ thread.waiting, Offered config thread.proposer offer) :
    ({ world with threads, reserved, replicas } : World).Protocol config :=
  ⟨hproto.answered, hproto.replied, hproto.requested, hjobs,
    hproto.first_stable, hproto.prior_dominates, hproto.certified⟩

/-- A decision with evidence may be added to the decisions. -/
theorem Protocol.add_decision (hproto : world.Protocol config)
    (hcert : (world.history decision.slot).Certified (voters config) Highest
      world.decisions.length decision.step decision.proposal.rank) :
    ({ world with decisions := world.decisions ++ [decision] } : World).Protocol config := by
  refine hproto.grow world.grows_decisions .inl .inl (fun hmem => .inl ⟨_, hmem⟩) .inl
    hproto.first_stable hproto.prior_dominates ?_
  rintro slot rank step proposal ⟨other, hother, rfl, rfl, rfl⟩
  rcases Nat.lt_trichotomy rank world.decisions.length with hlt | heq | hgt
  · rw [List.getElem?_append_left hlt] at hother
    exact .inl ⟨other, hother, rfl, rfl, rfl⟩
  · subst heq
    simp only [List.getElem?_concat_length, Option.some.injEq] at hother
    subst hother
    exact .inr (hcert.mono (world.grows_decisions.extends _) le_rfl)
  · rw [List.getElem?_eq_none (by simp; omega)] at hother
    cases hother

/-- The evidence of an installed value is evidence for its decision. -/
theorem Protocol.installed_certified (hproto : world.Protocol config)
    (hlaid : world.Installed codec slot decided) :
    (world.history slot).Certified (voters config) Highest world.decisions.length
      decided.certificate.decision.step decided.certificate.decision.proposal.rank := by
  obtain ⟨-, -, -, -, decision, hmem, hslot, hstep, hrank⟩ := hlaid
  obtain ⟨rank, hlt, hget⟩ := List.mem_iff_getElem.mp hmem
  have hdec : (world.history slot).Decided rank decided.certificate.decision.step
      decided.certificate.decision.proposal.rank :=
    ⟨decision, List.getElem?_eq_some_iff.mpr ⟨hlt, hget⟩, hslot, hstep, hrank⟩
  exact (hproto.certified hdec).mono (History.Extends.refl _) hlt.le

/-- Events that leave the replicas and answers in place keep the facts about nodes. -/
theorem Coherent.of_network (hlaw : world.Coherent codec config)
    (hgrows : world.Grows later) (hreplicas : later.replicas = world.replicas)
    (hsaid : later.answers = world.answers) (hproto : later.Protocol config) :
    later.Coherent codec config := by
  refine ⟨fun node => ?_, hproto⟩
  exact (hlaw.atNode node).grow hgrows (congrFun hreplicas node)
    fun hmem _ _ => hsaid ▸ hmem

/-- A new core with the same votes keeps the invariant. -/
theorem Coherent.setCore (hlaw : world.Coherent codec config)
    (hvotes : core.votes = (world.core node).votes) :
    ({ world.setCore node core with reserved } : World).Coherent codec config :=
  hlaw.setReplica hvotes ((hlaw.atNode node).inFlight core)

theorem Coherent.reserve (hlaw : world.Coherent codec config)
    (hbook : world.reserve node = some later) : later.Coherent codec config := by
  unfold World.reserve at hbook
  split at hbook
  · cases hbook
    exact hlaw.setCore (Core.reserveSlot_votes _)
  · cases hbook

variable {id : ℕ} {value bytes : Bytes} {fresh : Bool} {proposer : Proposer} {drawn : Priority}
  {summaries : List Summary}

/-- A thread table keeps its facts when one thread is replaced by a sound one. -/
theorem Protocol.insert_thread (hproto : world.Protocol config) {thread : Thread}
    (hheir : Descends config world thread.proposer.slot thread.proposer.step
      thread.proposer.proposal)
    (hwait : ∀ offer ∈ thread.waiting, Offered config thread.proposer offer) :
    ({ world with threads := world.threads.insert id thread, reserved } : World).Protocol
      config := by
  refine hproto.of_threads ?_
  intro id' thread' hlook
  rcases Table.of_lookup_insert hlook with ⟨-, rfl⟩ | hlook
  · exact ⟨hheir, hwait⟩
  · exact hproto.threads hlook

theorem Protocol.erase_thread (hproto : world.Protocol config) (id : ℕ) :
    ({ world with threads := world.threads.erase id } : World).Protocol config := by
  refine hproto.of_threads ?_
  intro id' thread' hlook
  have hlook := (Table.of_lookup_erase hlook).2
  exact hproto.threads hlook

theorem start_eq_some {id : ℕ} (hstart : world.start codec id node slot value fresh = some later) :
    world.threads.lookup id = none ∧ (fresh = true → (node, slot) ∈ world.reserved) ∧
      ∃ order leader, (world.core node).leaderOrder codec slot = .ok order ∧
        order.head? = some leader ∧ later = { world with
          threads := world.threads.insert id
            ⟨Proposer.start codec node slot leader value fresh, none⟩
          reserved := if fresh then world.reserved.erase (node, slot) else world.reserved } := by
  simp only [World.start, Option.ite_none_right_eq_some, Option.bind_eq_bind,
    Option.bind_eq_some_iff, toOption_eq_some] at hstart
  obtain ⟨hguard, order, horder, leader, hlead, ⟨⟩⟩ := hstart
  exact ⟨hguard.1, hguard.2, order, leader, horder, hlead, rfl⟩

theorem Coherent.start (hlaw : world.Coherent codec config) {id : ℕ}
    (hstart : world.start codec id node slot value fresh = some later) :
    later.Coherent codec config := by
  obtain ⟨-, -, order, leader, -, -, rfl⟩ := start_eq_some hstart
  refine hlaw.of_network world.grows_same rfl rfl
    (hlaw.protocol.insert_thread ⟨le_rfl, ?_⟩ nofun)
  intro hlt
  exact absurd hlt (lt_irrefl 4)

/-- A turn keeps the value of its proposal, and the proposal itself inside a round. -/
theorem candidate_spec (proposer : Proposer) (drawn : Priority) :
    (proposer.candidate drawn).hash = proposer.proposal.hash ∧
      (proposer.step % 4 ≠ 0 → proposer.candidate drawn = proposer.proposal) := by
  unfold Proposer.candidate
  split
  · rename_i hguard
    exact ⟨rfl, fun hne => absurd hguard.1 hne⟩
  · exact ⟨rfl, fun _ => rfl⟩

theorem Descends.candidate (drawn : Priority)
    (hheir : Descends config world proposer.slot proposer.step proposer.proposal) :
    Descends config world proposer.slot proposer.step (proposer.candidate drawn) := by
  obtain ⟨hhash, hkeep⟩ := candidate_spec proposer drawn
  refine ⟨hheir.1, fun hlt => ?_⟩
  obtain ⟨source, hseed, hfrom⟩ := hheir.2 hlt
  refine ⟨source, hseed, ?_⟩
  by_cases hround : proposer.step % 4 = 0
  · right
    refine ⟨hround, ?_⟩
    rw [hhash]
    rcases hfrom with hrank | ⟨-, hsame⟩
    · rw [← hrank, Proposal.rank_hash]
    · exact hsame
  · rw [hkeep hround]
    exact hfrom

/-- With one configuration an offer goes to all its members. -/
theorem send_eq_some (hsend : world.send codec id drawn = some later) :
    ∃ thread request recorders, world.threads.lookup id = some thread ∧
      thread.waiting = none ∧
      (world.core thread.proposer.node).decided.lookup thread.proposer.slot = none ∧
      (world.core thread.proposer.node).offer codec thread.proposer drawn =
        .ok (request, recorders) ∧
      later = { world with
        threads := world.threads.insert id { thread with
          waiting := some ⟨request, recorders,
            (world.core thread.proposer.node).offerQuorum thread.proposer.slot⟩ }
        requests := world.requests ++ recorders.map fun recorder => (recorder, request) } := by
  simp only [World.send, Option.bind_eq_bind, Option.bind_eq_some_iff,
    Option.ite_none_right_eq_some, toOption_eq_some] at hsend
  obtain ⟨thread, hjob, hguard, ⟨request, recorders⟩, hoffer, ⟨⟩⟩ := hsend
  exact ⟨thread, request, recorders, hjob, hguard.1, hguard.2, hoffer, rfl⟩

theorem offer_fixed (hfixed : core.reconfigEnabled = false)
    {request : RecordRequest} {recorders : List NodeID}
    (hoffer : core.offer codec proposer drawn = .ok (request, recorders)) :
    request.slot = proposer.slot ∧ request.step = proposer.step ∧
      request.proposal = proposer.candidate drawn ∧ recorders = core.config.memberIDs ∧
      core.offerQuorum proposer.slot = core.config.quorumSize := by
  simp only [Core.offer, Core.offerCluster, hfixed, bind_eq_ok, Bool.false_eq_true, if_false,
    Except.ok.injEq, Prod.mk.injEq] at hoffer
  obtain ⟨cluster, rfl, rfl, rfl⟩ := hoffer
  simp [Core.offerQuorum, hfixed]

theorem Coherent.send (hlaw : world.Coherent codec config)
    (hsend : world.send codec id drawn = some later) : later.Coherent codec config := by
  obtain ⟨thread, request, recorders, hjob, -, -, hoffer, rfl⟩ := send_eq_some hsend
  have hlocal := hlaw.atNode thread.proposer.node
  obtain ⟨hslot, hstep, hprop, hpeers, hmost⟩ := offer_fixed hlocal.fixed hoffer
  have hproto := hlaw.protocol
  have hheir := (hproto.threads hjob).1
  refine hlaw.of_network world.grows_requests rfl rfl (hproto.grow world.grows_requests .inl
    .inl (fun hmem => ?_) (fun {id' _} hlook => ?_) hproto.first_stable
    hproto.prior_dominates .inl)
  · refine (List.mem_append.mp hmem).imp (fun hold => ⟨_, hold⟩) fun hnew => ?_
    obtain ⟨recorder', -, heq⟩ := List.mem_map.mp hnew
    obtain ⟨rfl, rfl⟩ := Prod.mk.inj heq
    rw [hslot, hstep, hprop]
    exact (hheir.candidate drawn).grow world.grows_requests
  · rcases Table.of_lookup_insert hlook with ⟨-, rfl⟩ | hlook
    · refine .inr ⟨hheir.grow world.grows_requests, ?_⟩
      rintro _ ⟨⟩
      refine ⟨hslot, hstep, ?_, hpeers.trans (congrArg Cluster.memberIDs hlocal.config_eq),
        hmost.trans (congrArg Cluster.quorumSize hlocal.config_eq)⟩
      intro hne
      rw [hprop]
      exact (candidate_spec thread.proposer drawn).2 hne
    · exact .inl hlook

/-- A known decision may be returned or handed on again. -/
theorem Coherent.repeat_decision (hlaw : world.Coherent codec config)
    (hdec : (world.core node).decided.lookup slot = some decided)
    (hslot : decision.slot = decided.certificate.decision.slot)
    (hstep : decision.step = decided.certificate.decision.step)
    (hrank : decision.proposal.rank = decided.certificate.decision.proposal.rank) :
    ({ world with decisions := world.decisions ++ [decision] } : World).Coherent codec config := by
  have hlaid := (hlaw.atNode node).installed hdec
  refine hlaw.of_network world.grows_decisions rfl rfl (hlaw.protocol.add_decision ?_)
  rw [hslot, hstep, hrank, hlaid.2.2.1]
  exact hlaw.protocol.installed_certified hlaid

theorem Coherent.erase_thread (hlaw : world.Coherent codec config) (id : ℕ) :
    ({ world with threads := world.threads.erase id } : World).Coherent codec config :=
  hlaw.of_network world.grows_same rfl rfl (hlaw.protocol.erase_thread id)

theorem adopt_eq_some (hadopt : world.adopt id = some later) :
    ∃ thread decided, world.threads.lookup id = some thread ∧
      (world.core thread.proposer.node).decided.lookup thread.proposer.slot = some decided ∧
      later = { world with
        threads := world.threads.erase id
        decisions := world.decisions ++ [decided.decision] } := by
  simp only [World.adopt, Option.bind_eq_bind, Option.bind_eq_some_iff,
    Option.ite_none_right_eq_some, Option.some.injEq] at hadopt
  obtain ⟨thread, hjob, decided, hdec, -, rfl⟩ := hadopt
  exact ⟨thread, decided, hjob, hdec, rfl⟩

theorem serve_eq_some (hserve : world.serve codec node slot = some later) :
    ∃ decided decision, (world.core node).decided.lookup slot = some decided ∧
      (world.core node).certifiedDecision codec decided = .ok decision ∧
      later = { world with decisions := world.decisions ++ [decision] } := by
  simp only [World.serve, Option.bind_eq_bind, Option.bind_eq_some_iff, toOption_eq_some]
    at hserve
  obtain ⟨decided, hdec, decision, hcert, ⟨⟩⟩ := hserve
  exact ⟨decided, decision, hdec, hcert, rfl⟩

theorem Coherent.adopt (hlaw : world.Coherent codec config)
    (hadopt : world.adopt id = some later) : later.Coherent codec config := by
  obtain ⟨thread, decided, -, hdec, rfl⟩ := adopt_eq_some hadopt
  exact (hlaw.erase_thread id).repeat_decision hdec rfl rfl rfl

theorem Coherent.serve (hlaw : world.Coherent codec config)
    (hserve : world.serve codec node slot = some later) : later.Coherent codec config := by
  obtain ⟨decided, decision, hdec, hcert, rfl⟩ := serve_eq_some hserve
  simp only [Core.certifiedDecision, seq_eq_ok, Except.ok.injEq] at hcert
  obtain ⟨-, rfl⟩ := hcert
  exact hlaw.repeat_decision hdec rfl rfl rfl

section Conclude

variable {proposer : Proposer} {offer : Offer} {summaries : List Summary} {summary : Summary}
  {proposal : Rank}

/-- An answer at the offered step is an answer in the history of the slot. -/
theorem Protocol.answer_of_reply (hproto : world.Protocol config) {request : RecordRequest}
    (hreply : (request, summary) ∈ world.replies) (hnow : summary.step = request.step) :
    ∃ first, summary.firstCurrent.map Proposal.rank = some first ∧
      (world.history request.slot).Answer world.decisions.length summary.recorderID
        request.step request.proposal.rank first (summary.aggregatePrior.map Proposal.rank) := by
  obtain ⟨register, hmem⟩ := hproto.replied hreply
  rcases (hproto.answered hmem).2 with ⟨hreg, state, hborn, hpos, -, -, hfirst, -⟩ |
      ⟨-, decision, hpick, hslot, hstep, hfirst, hprior⟩
  · obtain ⟨first, hsome⟩ := Option.ne_none_iff_exists'.mp (hborn.nonempty hpos)
    have hmap : summary.firstCurrent.map Proposal.rank = some first.rank := by
      change summary.firstCurrent = state.firstCurrent at hfirst
      rw [hfirst, hsome]
      rfl
    exact ⟨first.rank, hmap, .inl ⟨_, hmem, hreg, rfl, rfl, rfl, hnow, rfl, hmap, rfl⟩⟩
  · obtain ⟨rank, hlt, hget⟩ := List.mem_iff_getElem.mp hpick
    refine ⟨decision.proposal.rank, hfirst, .inr ⟨rank, decision.step, hlt, ?_,
      ⟨decision, List.getElem?_eq_some_iff.mpr ⟨hlt, hget⟩, hslot, rfl, rfl⟩, hprior⟩⟩
    have hle : decision.step ≤ summary.step := hstep ▸ le_max_left _ _
    exact hle.trans hnow.le

/-- The first proposal a recorder reported, as a key. -/
def firstOf (summaries : List Summary) (recorder : NodeID) : Rank :=
  (((summaries.find? (·.recorderID = recorder)).bind Summary.firstCurrent).map
    Proposal.rank).getD (toLex (0, toLex ([], 0)))

/-- The prior aggregate a recorder reported, as a key. -/
def priorOf (summaries : List Summary) (recorder : NodeID) : Option Rank :=
  ((summaries.find? (·.recorderID = recorder)).bind Summary.aggregatePrior).map Proposal.rank

theorem find_recorder (hnodup : (summaries.map Summary.recorderID).Nodup)
    (hmem : summary ∈ summaries) :
    summaries.find? (·.recorderID = summary.recorderID) = some summary := by
  induction summaries with
  | nil => cases hmem
  | cons head tail ih =>
    rw [List.map_cons, List.nodup_cons] at hnodup
    rcases List.mem_cons.mp hmem with rfl | hmem
    · simp
    · have hne : head.recorderID ≠ summary.recorderID := by
        intro heq
        exact hnodup.1 (heq ▸ List.mem_map_of_mem hmem)
      rw [List.find?_cons_of_neg (by simpa using hne)]
      exact ih hnodup.2 hmem

/-- The recorders of the answers. -/
def recordersOf (summaries : List Summary) : Finset NodeID :=
  (summaries.map Summary.recorderID).toFinset

theorem mem_recordersOf {recorder : NodeID} : recorder ∈ recordersOf summaries ↔
    ∃ summary ∈ summaries, summary.recorderID = recorder := by
  simp [recordersOf]

/-- A full set of answers at the offered step is a gathered quorum of the history. -/
theorem Protocol.gathered_answers (hproto : world.Protocol config)
    (hoff : Offered config proposer offer) (hpool : world.gathered offer summaries = true)
    (hnow : ∀ summary ∈ summaries, summary.step = proposer.step) :
    (world.history proposer.slot).Gathered (voters config) world.decisions.length proposer.step
      (fun _ => offer.request.proposal.rank) (recordersOf summaries) (firstOf summaries)
      (priorOf summaries) := by
  obtain ⟨hnodup, hlen, hreplies⟩ := of_decide_eq_true hpool
  constructor
  · refine QuorumSystem.majority_of_list hnodup ?_ ?_
    · intro recorder hmem
      obtain ⟨summary, hsum, rfl⟩ := List.mem_map.mp hmem
      exact hoff.recorders ▸ (hreplies summary hsum).2
    · rw [List.length_map, hlen, hoff.quorum, Cluster.memberIDs, List.length_map]
      exact le_rfl
  · intro recorder hmem
    obtain ⟨summary, hsum, rfl⟩ := mem_recordersOf.mp hmem
    obtain ⟨first, hfirst, hsay⟩ := hproto.answer_of_reply (hreplies summary hsum).1
      ((hnow summary hsum).trans hoff.step.symm)
    rw [hoff.slot, hoff.step] at hsay
    have hfind := find_recorder hnodup hsum
    have hfirstOf : firstOf summaries summary.recorderID = first := by
      simp only [firstOf, hfind, Option.bind_some, hfirst, Option.getD_some]
    have hpriorOf : priorOf summaries summary.recorderID =
        summary.aggregatePrior.map Proposal.rank := by
      simp only [priorOf, hfind, Option.bind_some]
    rw [hfirstOf, hpriorOf]
    exact hsay

/-- The greatest key of a field among the answers, as the greatest reported key. -/
theorem isGreatest_priors (hnodup : (summaries.map Summary.recorderID).Nodup)
    (hmax : (∀ summary ∈ summaries, rankOf summary.aggregatePrior ≤ proposal) ∧
      ∃ summary ∈ summaries, rankOf summary.aggregatePrior = proposal) :
    IsGreatest (History.priors (recordersOf summaries) (priorOf summaries)) proposal := by
  have hprior : ∀ summary ∈ summaries,
      priorOf summaries summary.recorderID = rankOf summary.aggregatePrior := by
    intro summary hmem
    simp only [priorOf, find_recorder hnodup hmem, Option.bind_some]
    rfl
  obtain ⟨hupper, summary, hmem, heq⟩ := hmax
  refine ⟨⟨summary.recorderID, mem_recordersOf.mpr ⟨summary, hmem, rfl⟩, ?_⟩, ?_⟩
  · exact (hprior summary hmem).trans heq
  · rintro other ⟨recorder, hpeer, hother⟩
    obtain ⟨summary', hmem', rfl⟩ := mem_recordersOf.mp hpeer
    have hle := hupper summary' hmem'
    rw [← hprior summary' hmem', hother] at hle
    exact WithBot.coe_le_coe.mp hle

theorem isGreatest_firsts (hnodup : (summaries.map Summary.recorderID).Nodup)
    (hsome : ∀ summary ∈ summaries, ∃ first, summary.firstCurrent.map Proposal.rank = some first)
    (hmax : (∀ summary ∈ summaries, rankOf summary.firstCurrent ≤ proposal) ∧
      ∃ summary ∈ summaries, rankOf summary.firstCurrent = proposal) :
    IsGreatest (History.firsts (recordersOf summaries) (firstOf summaries)) proposal := by
  have hfirst : ∀ summary ∈ summaries,
      (firstOf summaries summary.recorderID : WithBot Rank) = rankOf summary.firstCurrent := by
    intro summary hmem
    obtain ⟨first, hfirst⟩ := hsome summary hmem
    simp only [firstOf, find_recorder hnodup hmem, Option.bind_some, hfirst, Option.getD_some]
    exact hfirst.symm
  obtain ⟨hupper, summary, hmem, heq⟩ := hmax
  refine ⟨⟨summary.recorderID, mem_recordersOf.mpr ⟨summary, hmem, rfl⟩, ?_⟩, ?_⟩
  · exact WithBot.coe_inj.mp ((hfirst summary hmem).trans heq)
  · rintro other ⟨recorder, hpeer, rfl⟩
    obtain ⟨summary', hmem', rfl⟩ := mem_recordersOf.mp hpeer
    have hle := hupper summary' hmem'
    rw [← hfirst summary' hmem'] at hle
    exact WithBot.coe_le_coe.mp hle

section Protocol

variable (hproto : world.Protocol config)
include hproto

/-- What was sent at a step descends from the step before. -/
theorem Protocol.descends_of_sent {slot step : ℕ} {proposal : Proposal}
    (hsent : (world.history slot).Sent step proposal.rank) :
    Descends config world slot step proposal := by
  obtain ⟨⟨recorder, request⟩, hmem, rfl, rfl, hrank⟩ := hsent
  obtain ⟨hfour, hheir⟩ := hproto.requested hmem
  refine ⟨hfour, fun hlt => ?_⟩
  obtain ⟨source, hseed, hfrom⟩ := hheir hlt
  refine ⟨source, hseed, ?_⟩
  have hhash : request.proposal.hash = proposal.hash := congrArg Rank.hash hrank
  rw [← hrank, ← hhash]
  exact hfrom

/-- An answer that is ahead shows a proposal that was sent at its step. -/
theorem Protocol.sent_of_ahead {summary : Summary} {rank : Rank}
    (hreply : (offer.request, summary) ∈ world.replies)
    (hahead : offer.request.step < summary.step) (hrank : rankOf summary.firstCurrent = rank) :
    (world.history offer.request.slot).Sent summary.step rank := by
  obtain ⟨register, hmem⟩ := hproto.replied hreply
  obtain ⟨hsent, hfrom⟩ := hproto.answered hmem
  have hfour : 4 ≤ offer.request.step := (hproto.requested hsent).1
  rcases hfrom with ⟨-, state, hborn, -, -, hstep, hfirst, -⟩ |
      ⟨-, decision, hpick, hslot, hstep, hfirst, -⟩
  · dsimp only at hstep hfirst hborn
    rw [hfirst] at hrank
    rw [hstep]
    cases hstate : state.firstCurrent with
    | none =>
      rw [hstate] at hrank
      exact absurd hrank WithBot.bot_ne_coe
    | some first =>
      rw [hstate, rankOf_some, WithBot.coe_inj] at hrank
      exact hrank ▸ hborn.first hstate
  · -- The echo of a decision past the first step: its own proposer had sent it.
    dsimp only at hslot hstep hfirst
    have hdec : decision.step = summary.step := by omega
    have hkey : decision.proposal.rank = rank := Option.some_inj.mp (hfirst.symm.trans hrank)
    obtain ⟨index, hlt, hget⟩ := List.mem_iff_getElem.mp hpick
    have hgave : (world.history offer.request.slot).Decided index decision.step
        decision.proposal.rank :=
      ⟨decision, List.getElem?_eq_some_iff.mpr ⟨hlt, hget⟩, hslot, rfl, rfl⟩
    rcases hproto.certified hgave with ⟨hfour', -⟩ | ⟨-, hsent', -⟩
    · omega
    · rw [← hdec, ← hkey]
      exact hsent'

section Offered

variable (hoff : Offered config proposer offer) (hpool : world.gathered offer summaries = true)
include hoff hpool

/-- A gathered quorum shows that the offer was sent. -/
theorem Protocol.sent_of_gathered :
    (world.history proposer.slot).Sent proposer.step offer.request.proposal.rank := by
  obtain ⟨-, hlen, hreplies⟩ := of_decide_eq_true hpool
  have hpos : 0 < summaries.length := by
    rw [hlen, hoff.quorum, Cluster.quorumSize]
    omega
  obtain ⟨summary, hmem⟩ := List.exists_mem_of_length_pos hpos
  obtain ⟨register, hsay⟩ := hproto.replied (hreplies summary hmem).1
  exact ⟨_, (hproto.answered hsay).1, hoff.slot, hoff.step, rfl⟩

/-- A decision of a turn has evidence. -/
theorem Protocol.decide_certified {decision : Decision}
    (hwraps : Concludes proposer summaries (.decide decision)) :
    (world.history decision.slot).Certified (voters config) Highest world.decisions.length
      decision.step decision.proposal.rank := by
  have hnodup := (of_decide_eq_true hpool).1
  cases hwraps with
  | fast hstep hpick hfirst hhigh =>
    obtain ⟨hslot, hfour, -⟩ := hpick
    have hmost := hproto.gathered_answers hoff hpool
      fun summary hmem => (hfirst summary hmem).1.trans hstep.symm
    rw [hslot, hfour]
    rw [hstep] at hmost
    refine .inl ⟨rfl, hhigh, fun _ => offer.request.proposal.rank, recordersOf summaries,
      priorOf summaries, hmost.1, ?_⟩
    intro recorder hmem
    have hsay := hmost.2 recorder hmem
    obtain ⟨summary, hsum, rfl⟩ := mem_recordersOf.mp hmem
    have hkey : firstOf summaries summary.recorderID = decision.proposal.rank := by
      have hmap : summary.firstCurrent.map Proposal.rank = some decision.proposal.rank :=
        (hfirst summary hsum).2
      simp only [firstOf, find_recorder hnodup hsum, Option.bind_some, hmap, Option.getD_some]
    rwa [hkey] at hsay
  | phase hphase hpick hprop hnow hmax =>
    obtain ⟨hslot, hstep, -⟩ := hpick
    have hmost := hproto.gathered_answers hoff hpool hnow
    have hsent := hproto.sent_of_gathered hoff hpool
    rw [hoff.proposal (by omega)] at hmost hsent
    rw [hslot, hstep, hprop]
    exact .inr ⟨hphase, hsent, _, _, _, hmost, isGreatest_priors hnodup hmax⟩

end Offered

/-- The next proposal of a turn descends from its answers. -/
theorem Protocol.advance_descends (hoff : Offered config proposer offer)
    (hfour : 4 ≤ proposer.step) (hpool : world.gathered offer summaries = true) {step : ℕ}
    {proposal : Proposal} (hwraps : Concludes proposer summaries (.advance step proposal)) :
    Descends config world proposer.slot step proposal := by
  obtain ⟨hnodup, -, hreplies⟩ := of_decide_eq_true hpool
  have hsent := hproto.sent_of_gathered hoff hpool
  cases hwraps with
  | spread hphase hnow hmax =>
    have hmost := hproto.gathered_answers hoff hpool hnow
    refine ⟨by omega, fun _ => ⟨proposal.rank, ⟨_, _, _, _, _, hsent, hmost, .inl ⟨?_,
      isGreatest_firsts hnodup ?_ hmax⟩⟩, .inl rfl⟩⟩
    · omega
    · intro summary hmem
      obtain ⟨first, hfirst, -⟩ := hproto.answer_of_reply (hreplies summary hmem).1
        ((hnow summary hmem).trans hoff.step.symm)
      exact ⟨first, hfirst⟩
  | keep hphase hnow =>
    have hmost := hproto.gathered_answers hoff hpool hnow
    have hown := hoff.proposal (by omega)
    refine ⟨by omega, fun _ => ⟨offer.request.proposal.rank, ⟨_, _, _, _, _, hsent, hmost,
      .inr (.inl ⟨?_, rfl⟩)⟩, .inl (congrArg Proposal.rank hown.symm)⟩⟩
    omega
  | gather hphase hnow hmax =>
    have hmost := hproto.gathered_answers hoff hpool hnow
    refine ⟨by omega, fun _ => ⟨proposal.rank, ⟨_, _, _, _, _, hsent, hmost, .inr (.inr ⟨?_,
      isGreatest_priors hnodup hmax⟩)⟩, .inl rfl⟩⟩
    omega
  | caught hmem hahead hrank =>
    have hahead' : offer.request.step < _ := hoff.step ▸ hahead
    have hshown := hproto.sent_of_ahead (hreplies _ hmem).1 hahead' hrank
    rw [hoff.slot] at hshown
    exact hproto.descends_of_sent hshown

end Protocol

end Conclude

theorem conclude_eq_some
    (hwrap : world.conclude codec id summaries bytes = some later) :
    ∃ thread offer outcome, world.threads.lookup id = some thread ∧
      thread.waiting = some offer ∧ world.gathered offer summaries = true ∧
      Concludes thread.proposer summaries outcome ∧
      later = match outcome with
        | .decide decision => { world with
            threads := world.threads.erase id
            decisions := world.decisions ++ [decision] }
        | .advance step proposal => { world with
            threads := world.threads.insert id
              ⟨{ thread.proposer with step, proposal }, none⟩ } := by
  simp only [World.conclude, Option.bind_eq_bind, Option.bind_eq_some_iff,
    Option.ite_none_right_eq_some, toOption_eq_some] at hwrap
  obtain ⟨thread, hjob, offer, hoffer, hpool, outcome, hout, hlater⟩ := hwrap
  refine ⟨thread, offer, outcome, hjob, hoffer, hpool, conclude_concludes hout, ?_⟩
  cases outcome <;> exact (Option.some_inj.mp hlater).symm

theorem Coherent.conclude (hlaw : world.Coherent codec config)
    (hwrap : world.conclude codec id summaries bytes = some later) :
    later.Coherent codec config := by
  obtain ⟨thread, offer, outcome, hjob, hoffer, hpool, hwraps, rfl⟩ := conclude_eq_some hwrap
  obtain ⟨hheir, hoff⟩ := hlaw.protocol.threads hjob
  have hoff := hoff offer hoffer
  cases outcome with
  | decide =>
    have herased := hlaw.erase_thread id
    exact herased.of_network (World.grows_decisions _) rfl rfl (herased.protocol.add_decision
      (hlaw.protocol.decide_certified hoff hpool hwraps))
  | advance =>
    refine hlaw.of_network world.grows_same rfl rfl
      (hlaw.protocol.insert_thread ?_ nofun)
    exact hlaw.protocol.advance_descends hoff hheir.1 hpool hwraps

/-- The replica is the same up to its slot allocator. -/
def Allocates (world later : World) (node : NodeID) : Prop :=
  ∃ nextSlot vacant, later.replicas node =
    { world.replicas node with core := { world.core node with nextSlot, vacant } }

theorem allocates_of_eq (hsame : later.replicas node = world.replicas node) :
    world.Allocates later node := ⟨(world.core node).nextSlot, (world.core node).vacant, hsame⟩

theorem allocates_setCore {nextSlot : ℕ} {vacant : List ℕ} (other : NodeID) : world.Allocates
    { world.setCore node { world.core node with nextSlot, vacant } with reserved } other := by
  by_cases hother : other = node
  · subst hother
    exact ⟨nextSlot, vacant, Function.update_self _ _ _⟩
  · exact allocates_of_eq (Function.update_of_ne hother _ _)

/-- What the events leave in place that are no section of a replica. -/
structure Outside (world later : World) : Prop where
  grows : world.Grows later
  target : later.target = world.target
  answers : later.answers = world.answers
  replies : later.replies = world.replies
  allocates : ∀ node, world.Allocates later node

variable {event : Event}

theorem step_outside (hstep : world.step codec event = some later)
    (hevent : ∀ node action, event ≠ .perform node action) : world.Outside later := by
  cases event with
  | perform node action => exact absurd rfl (hevent node action)
  | reserve node =>
    simp only [World.step, World.reserve] at hstep
    split at hstep
    · obtain ⟨nextSlot, vacant, heq⟩ := (world.core node).reserveSlot_eq
      rw [heq] at hstep
      cases hstep
      exact ⟨world.grows_same, rfl, rfl, rfl, allocates_setCore⟩
    · cases hstep
  | release node slot =>
    obtain ⟨nextSlot, vacant, heq⟩ := (world.core node).releaseSlot_eq slot
    rw [World.step, heq] at hstep
    cases hstep
    exact ⟨world.grows_same, rfl, rfl, rfl, allocates_setCore⟩
  | start =>
    obtain ⟨-, -, _, _, -, -, rfl⟩ := start_eq_some hstep
    exact ⟨world.grows_same, rfl, rfl, rfl, fun _ => allocates_of_eq rfl⟩
  | send =>
    obtain ⟨_, _, _, -, -, -, -, rfl⟩ := send_eq_some hstep
    exact ⟨world.grows_requests, rfl, rfl, rfl, fun _ => allocates_of_eq rfl⟩
  | adopt =>
    obtain ⟨_, _, -, -, rfl⟩ := adopt_eq_some hstep
    exact ⟨world.grows_decisions, rfl, rfl, rfl, fun _ => allocates_of_eq rfl⟩
  | serve =>
    obtain ⟨_, _, -, -, rfl⟩ := serve_eq_some hstep
    exact ⟨world.grows_decisions, rfl, rfl, rfl, fun _ => allocates_of_eq rfl⟩
  | conclude =>
    obtain ⟨_, _, outcome, -, -, -, -, rfl⟩ := conclude_eq_some hstep
    cases outcome with
    | decide => exact ⟨world.grows_decisions, rfl, rfl, rfl, fun _ => allocates_of_eq rfl⟩
    | advance => exact ⟨world.grows_same, rfl, rfl, rfl, fun _ => allocates_of_eq rfl⟩
  | stop =>
    cases hstep
    exact ⟨world.grows_same, rfl, rfl, rfl, fun _ => allocates_of_eq rfl⟩

/-- The replica of a node changes by its own sections and by the slot allocator only. -/
theorem step_replica (hstep : world.step codec event = some later) (node : NodeID) :
    (∃ action, event = .perform node action ∧
      (world.replicas node).step codec action = some (later.replicas node)) ∨
    world.Allocates later node := by
  cases event with
  | perform other action =>
    simp only [World.step, World.perform, Option.ite_none_right_eq_some, Option.bind_eq_bind,
      Option.bind_eq_some_iff] at hstep
    obtain ⟨-, replica, hrep, hlater⟩ := hstep
    have hreplicas : later.replicas = Function.update world.replicas other replica := by
      split at hlater <;> cases hlater <;> rfl
    by_cases hnode : node = other
    · subst hnode
      rw [hreplicas, Function.update_self]
      exact .inl ⟨action, rfl, hrep⟩
    · refine .inr (allocates_of_eq ?_)
      rw [hreplicas, Function.update_of_ne hnode]
  | _ => exact .inr ((step_outside hstep fun _ _ => by simp).allocates node)

end World

end Rhiza.QuePaxa
