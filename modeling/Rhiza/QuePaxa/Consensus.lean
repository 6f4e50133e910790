import Rhiza.Foundations.RegisterAgreement
import Rhiza.QuePaxa.Quiet
import Rhiza.QuePaxa.Turn
import Rhiza.QuePaxa.World

/-! # The consensus history of a slot

What a cluster shows of one slot, as a history of register consensus: requests are
the proposals sent, register answers at the offered step are the records, and the
decisions count in the order in which they were returned. The invariants of this
module relate the state of the cluster to these histories.
-/

namespace Rhiza.QuePaxa

open Foundations

/-- The majorities of a configuration. -/
def voters (config : Cluster) : QuorumSystem NodeID :=
  QuorumSystem.majority config.memberIDs.toFinset

def Highest (rank : Rank) : Prop := Rank.priority rank = highestPriority

/-- The answer is about the slot, and at the step that was offered. -/
structure Answer.Shows (answer : Answer) (slot : ℕ) (recorder : NodeID) (step : ℕ)
    (offer first : Rank) (prior : Option Rank) : Prop where
  slot_eq : answer.request.slot = slot
  recorder_eq : answer.summary.recorderID = recorder
  step_eq : answer.request.step = step
  current : answer.summary.step = step
  offer_eq : answer.request.proposal.rank = offer
  first_eq : answer.summary.firstCurrent.map Proposal.rank = some first
  prior_eq : answer.summary.aggregatePrior.map Proposal.rank = prior

namespace World

def history (world : World) (slot : ℕ) : History NodeID Rank where
  Sent step rank := ∃ sent ∈ world.requests,
    sent.2.slot = slot ∧ sent.2.step = step ∧ sent.2.proposal.rank = rank
  Recorded recorder step offer first prior := ∃ answer ∈ world.answers,
    answer.register = true ∧ answer.Shows slot recorder step offer first prior
  Decided rank step proposal := ∃ decision, world.decisions[rank]? = some decision ∧
    decision.slot = slot ∧ decision.step = step ∧ decision.proposal.rank = proposal

/-- Nothing that was sent, answered or decided is taken back. -/
structure Grows (world later : World) : Prop where
  requests : world.requests ⊆ later.requests
  answers : world.answers ⊆ later.answers
  decisions : ∃ more, later.decisions = world.decisions ++ more

variable {codec : Codec} {config : Cluster} {world later : World} {slot epoch : ℕ}
  {order : List NodeID}

theorem Grows.extends (hgrows : world.Grows later) (slot : ℕ) :
    (world.history slot).Extends (later.history slot) := by
  refine ⟨?_, ?_, ?_⟩
  · rintro step proposal ⟨sent, hsent, hshape⟩
    exact ⟨sent, hgrows.requests hsent, hshape⟩
  · rintro recorder step offer first prior ⟨answer, hsay, hshape⟩
    exact ⟨answer, hgrows.answers hsay, hshape⟩
  · rintro rank step proposal ⟨decision, hpick, hshape⟩
    obtain ⟨more, hmore⟩ := hgrows.decisions
    refine ⟨decision, ?_, hshape⟩
    rw [hmore]
    obtain ⟨hlt, heq⟩ := List.getElem?_eq_some_iff.mp hpick
    rw [List.getElem?_append_left hlt]
    exact hpick

section Growth

variable (world) {replicas : NodeID → Replica} {target : NodeID → ℕ} {threads : Table ℕ Thread}
  {replies : List (RecordRequest × Summary)} {reserved : List (NodeID × ℕ)}

theorem grows_same : world.Grows { world with replicas, threads, replies, reserved } :=
  ⟨List.Subset.refl _, List.Subset.refl _, [], (List.append_nil _).symm⟩

theorem grows_answers {more : List Answer} : world.Grows { world with
    replicas, target, threads, replies, reserved, answers := world.answers ++ more } :=
  ⟨List.Subset.refl _, List.subset_append_left _ _, [], (List.append_nil _).symm⟩

theorem grows_requests {more : List (NodeID × RecordRequest)} :
    world.Grows { world with threads, requests := world.requests ++ more } :=
  ⟨List.subset_append_left _ _, List.Subset.refl _, [], (List.append_nil _).symm⟩

theorem grows_decisions {more : List Decision} :
    world.Grows { world with threads, decisions := world.decisions ++ more } :=
  ⟨List.Subset.refl _, List.Subset.refl _, more, rfl⟩

end Growth

theorem Grows.mem_decisions (hgrows : world.Grows later) {decision : Decision}
    (hmem : decision ∈ world.decisions) : decision ∈ later.decisions := by
  obtain ⟨more, hmore⟩ := hgrows.decisions
  rw [hmore]
  exact List.mem_append_left more hmem

/-- Past the first step, a proposal continues one of the step before; at the start
of a round its priority may be new. -/
def Descends (config : Cluster) (world : World) (slot step : ℕ) (proposal : Proposal) : Prop :=
  4 ≤ step ∧ (4 < step → ∃ source, (world.history slot).Origin (voters config) step source ∧
    (proposal.rank = source ∨ step % 4 = 0 ∧ proposal.hash = Rank.hash source))

theorem Descends.grow {step : ℕ} {proposal : Proposal}
    (hheir : Descends config world slot step proposal) (hgrows : world.Grows later) :
    Descends config later slot step proposal := by
  refine ⟨hheir.1, fun hstep => ?_⟩
  obtain ⟨source, hseed, hfrom⟩ := hheir.2 hstep
  exact ⟨source, hseed.mono (hgrows.extends slot), hfrom⟩

/-- Where an answer comes from: a register filled by offers, or a decision. -/
def AnswerSource (world : World) (answer : Answer) : Prop :=
  (answer.register = true ∧ ∃ state : ISR,
      state.Sourced (world.history answer.request.slot).Sent ∧
      0 < state.step ∧ answer.request.step ≤ state.step ∧
      answer.summary.step = state.step ∧ answer.summary.firstCurrent = state.firstCurrent ∧
      answer.summary.aggregatePrior = state.aggregatePrior) ∨
    (answer.register = false ∧ ∃ decision ∈ world.decisions,
      decision.slot = answer.request.slot ∧
      answer.summary.step = max decision.step answer.request.step ∧
      answer.summary.firstCurrent.map Proposal.rank = some decision.proposal.rank ∧
      answer.summary.aggregatePrior.map Proposal.rank = some decision.proposal.rank)

theorem AnswerSource.grow {answer : Answer} (hfrom : world.AnswerSource answer)
    (hgrows : world.Grows later) : later.AnswerSource answer := by
  rcases hfrom with ⟨hreg, state, hborn, hshape⟩ | ⟨hecho, decision, hmem, hshape⟩
  · exact .inl ⟨hreg, state, hborn.mono (hgrows.extends _).sent, hshape⟩
  · exact .inr ⟨hecho, decision, hgrows.mem_decisions hmem, hshape⟩

/-- The offer a thread waits for is the one its turn makes. -/
structure Offered (config : Cluster) (proposer : Proposer) (offer : Offer) : Prop where
  slot : offer.request.slot = proposer.slot
  step : offer.request.step = proposer.step
  proposal : proposer.step % 4 ≠ 0 → offer.request.proposal = proposer.proposal
  recorders : offer.recorders = config.memberIDs
  quorum : offer.quorum = config.quorumSize

/-- The facts about what was sent, answered and decided. -/
structure Protocol (config : Cluster) (world : World) : Prop where
  answered : ∀ {answer}, answer ∈ world.answers →
    (answer.summary.recorderID, answer.request) ∈ world.requests ∧ world.AnswerSource answer
  replied : ∀ {request summary}, (request, summary) ∈ world.replies →
    ∃ register, ⟨request, summary, register⟩ ∈ world.answers
  requested : ∀ {recorder request}, (recorder, request) ∈ world.requests →
    Descends config world request.slot request.step request.proposal
  threads : ∀ {id thread}, world.threads.lookup id = some thread →
    Descends config world thread.proposer.slot thread.proposer.step thread.proposer.proposal ∧
      ∀ offer ∈ thread.waiting, Offered config thread.proposer offer
  first_stable : ∀ {slot recorder step offer offer' first first' prior prior'},
    (world.history slot).Recorded recorder step offer first prior →
      (world.history slot).Recorded recorder step offer' first' prior' → first = first'
  prior_dominates : ∀ {slot recorder step offer offer' first first' prior prior'},
    (world.history slot).Recorded recorder step offer first prior →
      (world.history slot).Recorded recorder (step + 1) offer' first' prior' →
        ∃ proposal, prior' = some proposal ∧ offer ≤ proposal
  certified : ∀ {slot rank step proposal}, (world.history slot).Decided rank step proposal →
    (world.history slot).Certified (voters config) Highest rank step proposal

/-- The facts survive growth when they hold of what is new. -/
theorem Protocol.grow (hproto : world.Protocol config) (hgrows : world.Grows later)
    (hanswered : ∀ {answer}, answer ∈ later.answers → answer ∈ world.answers ∨
      (answer.summary.recorderID, answer.request) ∈ later.requests ∧ later.AnswerSource answer)
    (hreply : ∀ {request summary}, (request, summary) ∈ later.replies →
      (request, summary) ∈ world.replies ∨ ∃ register, ⟨request, summary, register⟩ ∈ later.answers)
    (hrequested : ∀ {recorder request}, (recorder, request) ∈ later.requests →
      (∃ other, (other, request) ∈ world.requests) ∨
        Descends config later request.slot request.step request.proposal)
    (hjobs : ∀ {id thread}, later.threads.lookup id = some thread →
      world.threads.lookup id = some thread ∨
        Descends config later thread.proposer.slot thread.proposer.step thread.proposer.proposal ∧
          ∀ offer ∈ thread.waiting, Offered config thread.proposer offer)
    (hfirst : ∀ {slot recorder step offer offer' first first' prior prior'},
      (later.history slot).Recorded recorder step offer first prior →
        (later.history slot).Recorded recorder step offer' first' prior' → first = first')
    (hprior : ∀ {slot recorder step offer offer' first first' prior prior'},
      (later.history slot).Recorded recorder step offer first prior →
        (later.history slot).Recorded recorder (step + 1) offer' first' prior' →
          ∃ proposal, prior' = some proposal ∧ offer ≤ proposal)
    (hcert : ∀ {slot rank step proposal}, (later.history slot).Decided rank step proposal →
      (world.history slot).Decided rank step proposal ∨
        (later.history slot).Certified (voters config) Highest rank step proposal) :
    later.Protocol config := by
  refine ⟨fun hmem => ?_, fun hmem => ?_, fun hmem => ?_, fun hget => ?_, hfirst, hprior,
    fun hdec => ?_⟩
  · rcases hanswered hmem with hold | hnew
    · obtain ⟨hsent, hfrom⟩ := hproto.answered hold
      exact ⟨hgrows.requests hsent, hfrom.grow hgrows⟩
    · exact hnew
  · rcases hreply hmem with hold | hnew
    · obtain ⟨register, hsay⟩ := hproto.replied hold
      exact ⟨register, hgrows.answers hsay⟩
    · exact hnew
  · rcases hrequested hmem with ⟨other, hold⟩ | hnew
    · exact (hproto.requested hold).grow hgrows
    · exact hnew
  · rcases hjobs hget with hold | hnew
    · exact (hproto.threads hold).imp_left fun hheir => hheir.grow hgrows
    · exact hnew
  · rcases hcert hdec with hold | hnew
    · exact (hproto.certified hold).mono (hgrows.extends _) le_rfl
    · exact hnew

/-- The certificate of an installed value repeats a decision of the cluster. -/
def Installed (codec : Codec) (world : World) (slot : ℕ) (decided : DecidedValue) : Prop :=
  decided.slot = slot ∧ codec.sha256 decided.value = decided.hash ∧
    decided.certificate.decision.slot = slot ∧
    decided.certificate.decision.proposal.hash = decided.hash ∧
    ∃ decision ∈ world.decisions, decision.slot = slot ∧
      decision.step = decided.certificate.decision.step ∧
      decision.proposal.rank = decided.certificate.decision.proposal.rank

theorem Installed.grow {decided : DecidedValue}
    (hlaid : world.Installed codec slot decided) (hgrows : world.Grows later) :
    later.Installed codec slot decided := by
  obtain ⟨hslot, hhash, hcert, hprop, decision, hmem, hshape⟩ := hlaid
  exact ⟨hslot, hhash, hcert, hprop, decision, hgrows.mem_decisions hmem, hshape⟩

/-- The schedule of a slot: the rotation of the first epochs, or what the control slot
of the epoch before decided. -/
def Scheduled (codec : Codec) (config : Cluster) (world : World) (slot : ℕ)
    (order : List NodeID) : Prop :=
  (leaderEpoch slot < 2 * config.members.length + 1 ∧
      order = rotateMembers config.members (leaderEpoch slot % config.members.length)) ∨
    (2 * config.members.length + 1 ≤ leaderEpoch slot ∧ ∃ decided,
      world.Installed codec (leaderEpochFirst (leaderEpoch slot - 1)) decided ∧
        Core.scheduleOf codec config "invalid leader schedule for epoch" decided = .ok order)

theorem Scheduled.grow
    (hscheduled : world.Scheduled codec config slot order) (hgrows : world.Grows later) :
    later.Scheduled codec config slot order := by
  refine hscheduled.imp_right fun ⟨hlate, decided, hlaid, horder⟩ => ?_
  exact ⟨hlate, decided, hlaid.grow hgrows, horder⟩

theorem Scheduled.of_epoch {slot' : ℕ} (hscheduled : world.Scheduled codec config slot order)
    (hepoch : leaderEpoch slot' = leaderEpoch slot) : world.Scheduled codec config slot' order := by
  unfold Scheduled at hscheduled ⊢
  rw [hepoch]
  exact hscheduled

/-- A schedule that a compaction keeps is the one of its epoch. -/
def KeptSchedule (codec : Codec) (config : Cluster) (world : World) (epoch : ℕ)
    (order : List NodeID) : Prop :=
  order ≠ [] → ∀ {slot}, leaderEpoch slot = epoch → world.Scheduled codec config slot order

theorem KeptSchedule.grow (hkept : world.KeptSchedule codec config epoch order)
    (hgrows : world.Grows later) : later.KeptSchedule codec config epoch order :=
  fun hne _ hepoch => (hkept hne hepoch).grow hgrows

/-- The facts about one node. -/
structure Local (codec : Codec) (config : Cluster) (world : World) (node : NodeID) : Prop where
  nodeID : (world.core node).nodeID = node
  config_eq : (world.core node).config = config
  fixed : (world.core node).reconfigEnabled = false
  baseLeader : world.KeptSchedule codec config (world.core node).baseLeaderEpoch
    (world.core node).baseLeaderOrder
  baseFollowing : world.KeptSchedule codec config (world.core node).baseFollowingEpoch
    (world.core node).baseFollowingOrder
  compacting : ∀ {running}, (world.replicas node).compaction = some running →
    world.KeptSchedule codec config running.base.leaderEpoch running.base.nextLeaderOrder ∧
      world.KeptSchedule codec config (running.base.leaderEpoch + 1)
        running.base.followingLeaderOrder
  admitted : ∀ {request}, request ∈ (world.replicas node).admitted →
    (node, request) ∈ world.requests
  checked : ∀ {decision configID}, (decision, configID) ∈ (world.replicas node).checked →
    decision ∈ world.decisions ∧ codec.sha256 decision.proposal.value = decision.proposal.hash
  pending : ∀ {request summary completion flushed},
    (Pending.record request summary completion, flushed) ∈ (world.replicas node).pending →
      ∃ register, ⟨request, summary, register⟩ ∈ world.answers
  installed : ∀ {slot decided}, (world.core node).decided.lookup slot = some decided →
    world.Installed codec slot decided
  sourced : ∀ slot, ((world.core node).recorder slot).Sourced (world.history slot).Sent
  remembers : ∀ {answer}, answer ∈ world.answers → answer.register = true →
    answer.summary.recorderID = node → answer.summary.step = answer.request.step →
    (world.core node).floor < answer.request.slot →
    (world.core node).decided.lookup answer.request.slot = none →
    ((world.core node).recorder answer.request.slot).Remembers answer.request.step
      answer.request.proposal.rank answer.summary.firstCurrent answer.summary.aggregatePrior

/-- The calls that a replica has in flight agree with the world. -/
structure InFlight (codec : Codec) (config : Cluster) (world : World) (node : NodeID)
    (replica : Replica) : Prop where
  compacting : ∀ {running}, replica.compaction = some running →
    world.KeptSchedule codec config running.base.leaderEpoch running.base.nextLeaderOrder ∧
      world.KeptSchedule codec config (running.base.leaderEpoch + 1)
        running.base.followingLeaderOrder
  admitted : ∀ {request}, request ∈ replica.admitted → (node, request) ∈ world.requests
  checked : ∀ {decision configID}, (decision, configID) ∈ replica.checked →
    decision ∈ world.decisions ∧ codec.sha256 decision.proposal.value = decision.proposal.hash
  pending : ∀ {request summary completion flushed},
    (Pending.record request summary completion, flushed) ∈ replica.pending →
      ∃ register, ⟨request, summary, register⟩ ∈ world.answers

variable {node : NodeID} {replica : Replica}

theorem Local.inFlight (hlocal : world.Local codec config node) (core : Core) :
    world.InFlight codec config node { world.replicas node with core } :=
  ⟨hlocal.compacting, hlocal.admitted, hlocal.checked, hlocal.pending⟩

theorem InFlight.grow (hcalls : world.InFlight codec config node replica)
    (hgrows : world.Grows later) : later.InFlight codec config node replica where
  compacting hgoing := by
    obtain ⟨hnext, hfollowing⟩ := hcalls.compacting hgoing
    exact ⟨hnext.grow hgrows, hfollowing.grow hgrows⟩
  admitted hmem := hgrows.requests (hcalls.admitted hmem)
  checked hmem := (hcalls.checked hmem).imp_left hgrows.mem_decisions
  pending hmem := by
    obtain ⟨register, hsay⟩ := hcalls.pending hmem
    exact ⟨register, hgrows.answers hsay⟩

theorem InFlight.wait (hcalls : world.InFlight codec config node replica)
    {request : RecordRequest} {summary : Summary} {register : Bool}
    (hsay : ⟨request, summary, register⟩ ∈ world.answers) {completion : Completion} :
    world.InFlight codec config node
      { replica with pending := replica.wait (.record request summary completion) } := by
  refine ⟨hcalls.compacting, hcalls.admitted, hcalls.checked, fun hmem => ?_⟩
  rcases List.mem_append.mp hmem with hold | hnew
  · exact hcalls.pending hold
  · cases List.mem_singleton.mp hnew
    exact ⟨register, hsay⟩

/-- The facts about a node depend on its votes and its calls in flight; here its decisions and
registers have changed. -/
theorem Local.of_core (hlocal : world.Local codec config node) (hgrows : world.Grows later)
    {decided : Table ℕ DecidedValue} {recorders : Table ℕ ISR}
    (hvotes : (later.core node).votes = { world.core node with decided, recorders }.votes)
    (hcalls : later.InFlight codec config node (later.replicas node))
    (hlaid : ∀ {slot value}, decided.lookup slot = some value → later.Installed codec slot value)
    (hborn : ∀ slot, ((recorders.lookup slot).getD ISR.empty).Sourced (later.history slot).Sent)
    (hrecall : ∀ {answer}, answer ∈ later.answers → answer.register = true →
      answer.summary.recorderID = node → answer.summary.step = answer.request.step →
      (world.core node).floor < answer.request.slot →
      decided.lookup answer.request.slot = none →
      ((recorders.lookup answer.request.slot).getD ISR.empty).Remembers answer.request.step
        answer.request.proposal.rank answer.summary.firstCurrent answer.summary.aggregatePrior) :
    later.Local codec config node := by
  obtain ⟨hid, hconfig, hfixed, hepoch, horder, hnext, hnextOrder, hfloor, rfl, rfl⟩ :=
    Votes.mk.inj hvotes
  refine ⟨hid.trans hlocal.nodeID, hconfig.trans hlocal.config_eq, hfixed.trans hlocal.fixed,
    ?_, ?_, hcalls.compacting, hcalls.admitted, hcalls.checked, hcalls.pending, hlaid, hborn, ?_⟩
  · rw [hepoch, horder]
    exact hlocal.baseLeader.grow hgrows
  · rw [hnext, hnextOrder]
    exact hlocal.baseFollowing.grow hgrows
  · rw [hfloor]
    exact hrecall

/-- The same when nothing of the votes has changed. -/
theorem Local.of_votes (hlocal : world.Local codec config node)
    (hgrows : world.Grows later) (hvotes : (later.core node).votes = (world.core node).votes)
    (hcalls : later.InFlight codec config node (later.replicas node))
    (hsaid : ∀ {answer}, answer ∈ later.answers → answer.register = true →
      answer.summary.recorderID = node → answer ∈ world.answers) :
    later.Local codec config node := by
  refine hlocal.of_core hgrows hvotes hcalls ?_ ?_ ?_
  · exact fun hslot => (hlocal.installed hslot).grow hgrows
  · exact fun slot => (hlocal.sourced slot).mono (hgrows.extends slot).sent
  · exact fun hmem hreg hnode => hlocal.remembers (hsaid hmem hreg hnode) hreg hnode

/-- The facts about a node survive what happens elsewhere. -/
theorem Local.grow (hlocal : world.Local codec config node)
    (hgrows : world.Grows later) (hsame : later.replicas node = world.replicas node)
    (hsaid : ∀ {answer}, answer ∈ later.answers → answer.register = true →
      answer.summary.recorderID = node → answer ∈ world.answers) :
    later.Local codec config node := by
  refine hlocal.of_votes hgrows (congrArg (Core.votes ∘ Replica.core) hsame) ?_ hsaid
  rw [hsame]
  exact (hlocal.inFlight _).grow hgrows

/-- The consensus invariant of a cluster with one configuration. -/
structure Coherent (codec : Codec) (config : Cluster) (world : World) : Prop where
  atNode : ∀ node, world.Local codec config node
  protocol : world.Protocol config

/-- An event at one node that adds no register answers of the others. -/
theorem Coherent.of_node (hlaw : world.Coherent codec config) (hgrows : world.Grows later)
    (hlater : later.replicas = Function.update world.replicas node replica)
    (hsaid : ∀ {answer}, answer ∈ later.answers → answer.register = true →
      answer.summary.recorderID ≠ node → answer ∈ world.answers)
    (hnode : later.replicas node = replica → later.Local codec config node)
    (hproto : later.Protocol config) : later.Coherent codec config := by
  refine ⟨fun other => ?_, hproto⟩
  by_cases hother : other = node
  · subst hother
    exact hnode (by rw [hlater, Function.update_self])
  · refine (hlaw.atNode other).grow hgrows ?_ fun hmem hreg hpeer =>
      hsaid hmem hreg (hpeer ▸ hother)
    rw [hlater, Function.update_of_ne hother]

end World

end Rhiza.QuePaxa
