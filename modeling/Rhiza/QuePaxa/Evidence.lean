import Rhiza.QuePaxa.Restart

/-! # Certificates as evidence

A decision that passes the certificate checks and whose summaries are replies of the
run. Validation looks at the summaries alone. In the third phase they show which
proposal is the greatest prior aggregate, but not which proposal the answered
requests carried; agreement needs the latter as well.
-/

namespace Rhiza.QuePaxa

open Foundations

namespace World

variable {codec : Codec} {config : Cluster} {world later : World} {decision : Decision}

/-- Every summary of the decision is a reply of the run to a request for its slot
that satisfies the condition, given at the step of that request. -/
def Replied (world : World) (decision : Decision) (Carries : RecordRequest → Prop) : Prop :=
  ∀ summary ∈ decision.summaries, ∃ request reply, (request, reply) ∈ world.replies ∧
    request.slot = decision.slot ∧ reply.step = request.step ∧ reply.ref = summary.ref ∧
    Carries request

/-- Some replica accepts the certificate of the decision. -/
def Validates (codec : Codec) (world : World) (decision : Decision) : Prop :=
  ∃ node allowMissingLeader,
    (world.core node).validateDecisionForRecovery codec decision allowMissingLeader = .ok ()

/-- What the certificate checks establish about the summaries. -/
structure Checked (config : Cluster) (decision : Decision) : Prop where
  members : ∀ summary ∈ decision.summaries, summary.recorderID ∈ config.memberIDs
  nodup : (decision.summaries.map Summary.recorderID).Nodup
  step : ∀ summary ∈ decision.summaries, summary.step = decision.step
  quorum : config.quorumSize ≤ decision.summaries.length
  evidence : (decision.step = 4 ∧ decision.proposal.priority = highestPriority ∧
      ∀ summary ∈ decision.summaries,
        rankOf summary.firstCurrent = decision.proposal.rank) ∨
    (decision.step % 4 = 2 ∧ (∀ summary ∈ decision.summaries,
        rankOf summary.aggregatePrior ≤ decision.proposal.rank) ∧
      ∃ summary ∈ decision.summaries,
        rankOf summary.aggregatePrior = decision.proposal.rank)

theorem Validates.checked (hvalid : world.Validates codec decision)
    (hworld : ∀ node, (world.core node).Genesis config) : Checked config decision := by
  obtain ⟨node, allowMissingLeader, hvalid⟩ := hvalid
  have hcluster := (hworld node).clusterForSlot_eq decision.slot
  simp only [Core.validateDecisionForRecovery, seq_eq_ok] at hvalid
  obtain ⟨-, -, -, hvalid⟩ := hvalid
  obtain ⟨barrier, -, hvalid⟩ := bind_eq_ok.mp hvalid
  simp only [seq_eq_ok] at hvalid
  obtain ⟨hsummaries, -, hproof⟩ := hvalid
  simp only [Core.validateSummaries, hcluster, seq_eq_ok, requireAll_eq_ok, require_eq_ok]
    at hsummaries
  obtain ⟨-, hmembers, hnodup, hstep, hmost⟩ := hsummaries
  refine ⟨hmembers, hnodup, hstep, hmost, ?_⟩
  unfold Core.validateEvidence at hproof
  split at hproof
  · obtain ⟨leader, -, hfast⟩ := bind_eq_ok.mp hproof
    simp only [seq_eq_ok, requireAll_eq_ok, require_eq_ok, sameProposal_iff] at hfast
    obtain ⟨⟨hfour, -, hhigh⟩, hfirst⟩ := hfast
    exact .inl ⟨hfour, hhigh, fun summary hmem => (hfirst summary hmem).2⟩
  · rename_i hphase
    rw [require_eq_ok, sameProposal_iff, maxPrior_eq, rankOf_some] at hproof
    obtain ⟨best, hbest⟩ : ∃ best,
        maxProposal (decision.summaries.map Summary.aggregatePrior) = some best := by
      cases hmax : maxProposal (decision.summaries.map Summary.aggregatePrior) with
      | none =>
        rw [hmax] at hproof
        exact absurd hproof WithBot.bot_ne_coe
      | some best => exact ⟨best, rfl⟩
    obtain ⟨hupper, hmem⟩ := greatest_of_maxProposal hbest
    rw [hbest, rankOf_some, WithBot.coe_inj] at hproof
    rw [hproof] at hupper hmem
    exact .inr ⟨hphase, hupper, hmem⟩
  · cases hproof

/-- References keep the keys of a summary. -/
theorem ref_keys {left right : Summary} (href : left.ref = right.ref) :
    left.recorderID = right.recorderID ∧ left.step = right.step ∧
      left.firstCurrent.map Proposal.rank = right.firstCurrent.map Proposal.rank ∧
      left.aggregatePrior.map Proposal.rank = right.aggregatePrior.map Proposal.rank := by
  have hkeys : ∀ proposal : Option Proposal,
      (proposal.map Proposal.ref).map Proposal.rank = proposal.map Proposal.rank := by
    intro proposal
    cases proposal <;> rfl
  have hid : left.ref.recorderID = right.ref.recorderID := congrArg Summary.recorderID href
  have hstep : left.ref.step = right.ref.step := congrArg Summary.step href
  refine ⟨hid, hstep, ?_, ?_⟩
  · rw [← hkeys left.firstCurrent, ← hkeys right.firstCurrent]
    exact congrArg (fun summary : Summary => summary.firstCurrent.map Proposal.rank) href
  · rw [← hkeys left.aggregatePrior, ← hkeys right.aggregatePrior]
    exact congrArg (fun summary : Summary => summary.aggregatePrior.map Proposal.rank) href

/-- The request that a summary of the decision answers carried the decided proposal,
when the decision was taken in the third phase. -/
def CarriesDecided (decision : Decision) (request : RecordRequest) : Prop :=
  decision.step % 4 = 2 → request.proposal.rank = decision.proposal.rank

/-- A checked decision on real replies is evidence in the history of its slot. -/
theorem Protocol.certified_of_checked (hproto : world.Protocol config)
    (hvet : Checked config decision) (hback : world.Replied decision (CarriesDecided decision)) :
    (world.history decision.slot).Certified (voters config) Highest world.decisions.length
      decision.step decision.proposal.rank := by
  -- Every summary is an answer of its recorder in the history.
  have hsaid : ∀ recorder ∈ recordersOf decision.summaries, ∃ offer,
      (decision.step % 4 = 2 → offer = decision.proposal.rank) ∧
      (world.history decision.slot).Sent decision.step offer ∧
      (world.history decision.slot).Answer world.decisions.length recorder decision.step offer
        (firstOf decision.summaries recorder) (priorOf decision.summaries recorder) := by
    intro recorder hpeer
    obtain ⟨summary, hsum, rfl⟩ := mem_recordersOf.mp hpeer
    obtain ⟨request, reply, hreply, hslot, hnow, href, hbear⟩ := hback summary hsum
    obtain ⟨hid, hstep, hfirst, hprior⟩ := ref_keys href
    have hsteps : request.step = decision.step :=
      hnow.symm.trans (hstep.trans (hvet.step summary hsum))
    obtain ⟨first, hsome, hsay⟩ := hproto.answer_of_reply hreply hnow
    have hfind := find_recorder hvet.nodup hsum
    have hfirstOf : firstOf decision.summaries summary.recorderID = first := by
      simp only [firstOf, hfind, Option.bind_some, ← hfirst, hsome, Option.getD_some]
    have hpriorOf : priorOf decision.summaries summary.recorderID =
        reply.aggregatePrior.map Proposal.rank := by
      simp only [priorOf, hfind, Option.bind_some, hprior]
    obtain ⟨register, hmem⟩ := hproto.replied hreply
    refine ⟨request.proposal.rank, hbear, ⟨_, (hproto.answered hmem).1, hslot, hsteps, rfl⟩, ?_⟩
    rw [hfirstOf, hpriorOf, ← hid, ← hslot, ← hsteps]
    exact hsay
  choose! offer hoffer using hsaid
  have hmost : (voters config).IsQuorum (recordersOf decision.summaries) := by
    refine QuorumSystem.majority_of_list hvet.nodup ?_ ?_
    · intro recorder hmem
      obtain ⟨summary, hsum, rfl⟩ := List.mem_map.mp hmem
      exact hvet.members summary hsum
    · have hle := hvet.quorum
      rw [Cluster.quorumSize] at hle
      simpa [Cluster.memberIDs] using hle
  rcases hvet.evidence with ⟨hfour, hhigh, hfirst⟩ | ⟨hphase, hgreatest⟩
  · refine .inl ⟨hfour, hhigh, offer, _, priorOf decision.summaries, hmost, ?_⟩
    intro recorder hpeer
    have hsay := (hoffer recorder hpeer).2.2
    obtain ⟨summary, hsum, rfl⟩ := mem_recordersOf.mp hpeer
    have hkey : firstOf decision.summaries summary.recorderID = decision.proposal.rank := by
      have hmap : summary.firstCurrent.map Proposal.rank = some decision.proposal.rank :=
        hfirst summary hsum
      simp only [firstOf, find_recorder hvet.nodup hsum, Option.bind_some, hmap, Option.getD_some]
    rwa [hkey, hfour] at hsay
  · have hcarried : ∀ recorder ∈ recordersOf decision.summaries,
        offer recorder = decision.proposal.rank := fun recorder hpeer =>
      (hoffer recorder hpeer).1 hphase
    obtain ⟨recorder, hpeer, -⟩ := (voters config).meet hmost hmost
    refine .inr ⟨hphase, ?_, recordersOf decision.summaries, firstOf decision.summaries,
      priorOf decision.summaries, ⟨hmost, ?_⟩, isGreatest_priors hvet.nodup hgreatest⟩
    · rw [← hcarried recorder hpeer]
      exact (hoffer recorder hpeer).2.1
    · intro recorder hpeer
      rw [← hcarried recorder hpeer]
      exact (hoffer recorder hpeer).2.2

/-- Certificates prove decisions: two decisions for a slot that pass the checks, and
whose summaries are replies of the run to requests carrying the decided proposal in
the third phase, carry the same value, which is also the one proposers decide. -/
theorem certificates_agree (codec : Codec) (hinjective : Function.Injective codec.sha256)
    (deployment : Deployment) (hfixed : deployment.reconfigEnabled = false)
    (events : List Event) (hfree : ∀ event ∈ events, event.crashFree = true) (world : World)
    (hrun : (initial deployment).run codec events = some world) (left right : Decision)
    (hslot : left.slot = right.slot)
    (hleft : world.Validates codec left) (hright : world.Validates codec right)
    (hreplied : world.Replied left (CarriesDecided left))
    (hreplied' : world.Replied right (CarriesDecided right)) :
    left.proposal.hash = right.proposal.hash ∧
      ∀ hash, world.Chosen left.slot hash → left.proposal.hash = hash := by
  have hworld := steady_run hfixed hfree hrun
  have hgenesis : ∀ node, (world.core node).Genesis deployment.config :=
    (guarded_of_forall hfree _).invariant (fun hworld _ hstep => step_genesis hstep hworld)
      hrun fun _ => ⟨hfixed, rfl, rfl⟩
  have hsound : (world.history left.slot).Sound (voters deployment.config) Highest Rank.hash :=
    hworld.sound hinjective fun _ hleft hright => hworld.chosen_agree hinjective hleft hright
  have hcertified := hworld.coherent.protocol.certified_of_checked
    (hleft.checked hgenesis) hreplied
  have hcertified' := hworld.coherent.protocol.certified_of_checked
    (hright.checked hgenesis) hreplied'
  refine ⟨?_, fun hash hchosen => ?_⟩
  · rw [← hslot] at hcertified'
    exact hsound.certified_agree hcertified hcertified'
  · obtain ⟨_, _, _, hother, rfl⟩ := hchosen.certified hworld.coherent
    exact hsound.certified_agree hcertified hother

section SplitRun

/-- The rival proposals of two proposers without the fast path. -/
def topRival : Proposal := ⟨10, [66], digest [1], [1]⟩
def lowRival : Proposal := ⟨5, [67], digest [2], [2]⟩

def rivalRequest (step : ℕ) (proposal : Proposal) : RecordRequest := ⟨1, step, 1, 0, proposal⟩

def rivalSummary (recorder : NodeID) (step : ℕ) (first : Proposal) (prior : Option Proposal) :
    Summary :=
  ⟨recorder, 0, step, some first.ref, prior.map Proposal.ref⟩

/-- The upper proposal reaches a single register at step five; the lower one is
carried by the other two voters and decided by them at step six. -/
def splitRun : List Event :=
  [.start 0 [66] 1 [1] false, .start 1 [67] 1 [2] false, .send 0 10, .send 1 5] ++
    answerNow [65] (rivalRequest 4 topRival) ++
    answerNow [66] (rivalRequest 4 lowRival) ++
    answerNow [66] (rivalRequest 4 topRival) ++
    answerNow [67] (rivalRequest 4 lowRival) ++
    [.conclude 0 [rivalSummary [65] 4 topRival none,
        rivalSummary [66] 4 lowRival none] [1],
      .conclude 1 [rivalSummary [66] 4 lowRival none,
        rivalSummary [67] 4 lowRival none] [2],
      .send 0 0, .send 1 0] ++
    answerNow [65] (rivalRequest 5 topRival) ++
    answerNow [66] (rivalRequest 5 lowRival) ++
    answerNow [67] (rivalRequest 5 lowRival) ++
    [.conclude 1 [rivalSummary [66] 5 lowRival topRival,
        rivalSummary [67] 5 lowRival lowRival] [],
      .send 1 0] ++
    answerNow [65] (rivalRequest 6 lowRival) ++
    answerNow [66] (rivalRequest 6 lowRival) ++
    answerNow [67] (rivalRequest 6 lowRival) ++
    [.conclude 1 [rivalSummary [66] 6 lowRival lowRival,
        rivalSummary [67] 6 lowRival lowRival] []]

/-- The certificate of some voters for the lower proposal at step six. -/
def lowerCertificate (recorders : List NodeID) : Decision where
  configID := 0
  slot := 1
  step := 6
  proposal := lowRival
  summaries := recorders.map fun recorder => rivalSummary recorder 6 lowRival lowRival

/-- The decision of the run. -/
def splitDecision : Decision := lowerCertificate [[66], [67]]

/-- Two other replies of the same step, in which the upper proposal is the greatest
prior aggregate. -/
def splitCertificate : Decision where
  configID := 0
  slot := 1
  step := 6
  proposal := topRival
  summaries := [rivalSummary [65] 6 lowRival topRival,
    rivalSummary [66] 6 lowRival lowRival]

instance : DecidablePred (CarriesDecided decision) := fun _ => inferInstanceAs (Decidable (_ → _))

/-- The summaries are replies, and a voter accepts the certificate. -/
def evidences (world : World) (decision : Decision) (Carries : RecordRequest → Prop)
    [DecidablePred Carries] : Bool :=
  (decision.summaries.all fun summary => world.replies.any fun reply =>
    reply.1.slot = decision.slot ∧ reply.2.step = reply.1.step ∧ reply.2.ref = summary.ref ∧
      Carries reply.1) ∧
  ((world.core [65]).validateDecisionForRecovery (Codec.tabled []) decision false).toOption =
    some ()

theorem replied_of_evidences {Carries : RecordRequest → Prop} [DecidablePred Carries]
    (h : world.evidences decision Carries = true) :
    world.Validates (Codec.tabled []) decision ∧ world.Replied decision Carries := by
  obtain ⟨hall, hvalid⟩ := of_decide_eq_true h
  refine ⟨⟨[65], false, toOption_eq_some.mp hvalid⟩, fun summary hmem => ?_⟩
  obtain ⟨reply, hreply, hshown⟩ := List.any_eq_true.mp (List.all_eq_true.mp hall summary hmem)
  exact ⟨reply.1, reply.2, hreply, of_decide_eq_true hshown⟩

/-- Replies that did not lead their proposer to a decision can be combined into a
certificate for a value that nobody decided. -/
theorem certificates_disagree : ∃ world,
    (initial trio).run (Codec.tabled []) splitRun = some world ∧
      (∀ event ∈ splitRun, event.crashFree = true) ∧
      world.Validates (Codec.tabled []) splitCertificate ∧
      world.Validates (Codec.tabled []) splitDecision ∧
      world.Replied splitCertificate (fun _ => True) ∧
      world.Replied splitDecision (fun _ => True) ∧ splitDecision ∈ world.decisions ∧
      splitCertificate.slot = splitDecision.slot ∧
      splitCertificate.proposal.hash ≠ splitDecision.proposal.hash := by
  obtain ⟨world, hrun, hforged, hvalid, hdecision⟩ : ∃ world,
      (initial trio).run (Codec.tabled []) splitRun = some world ∧
        world.evidences splitCertificate (fun _ => True) = true ∧
        world.evidences splitDecision (fun _ => True) = true ∧ splitDecision ∈ world.decisions := by
    decide +kernel
  obtain ⟨hforged, hreplied⟩ := replied_of_evidences hforged
  obtain ⟨hvalid, hreplied'⟩ := replied_of_evidences hvalid
  exact ⟨world, hrun, by decide +kernel, hforged, hvalid, hreplied, hreplied', hdecision, rfl,
    by decide +kernel⟩

end SplitRun

/-- One proposer is answered by all voters at each step, up to step six. -/
def lowerRun : List Event :=
  [.start 1 [67] 1 [2] false, .send 1 5] ++ answers 4 ++
    [.conclude 1 (summaries 4 none) [2], .send 1 0] ++ answers 5 ++
    [.conclude 1 (summaries 5 (some lowRival)) [], .send 1 0] ++ answers 6 ++
    [.conclude 1 (summaries 6 (some lowRival)) []]
where
  answers (step : ℕ) : List Event :=
    [[65], [66], [67]].flatMap (answerNow · (rivalRequest step lowRival))
  summaries (step : ℕ) (prior : Option Proposal) : List Summary :=
    [[66], [67]].map (rivalSummary · step lowRival prior)

/-- The replies of another majority are a certificate as well, for the decided value. -/
def otherCertificate : Decision := lowerCertificate [[65], [66]]

theorem certificates_agree_lowerRun : ∃ world,
    (initial trio).run (Codec.tabled []) lowerRun = some world ∧
      splitDecision ∈ world.decisions ∧ otherCertificate ∉ world.decisions ∧
      ∀ hash, world.Chosen 1 hash → otherCertificate.proposal.hash = hash := by
  obtain ⟨world, hrun, hleft, hright, hdecided⟩ : ∃ world,
      (initial trio).run (Codec.tabled []) lowerRun = some world ∧
        world.evidences otherCertificate (CarriesDecided otherCertificate) = true ∧
        world.evidences splitDecision (CarriesDecided splitDecision) = true ∧
        splitDecision ∈ world.decisions ∧ otherCertificate ∉ world.decisions := by
    decide +kernel
  obtain ⟨hleft, hreplied⟩ := replied_of_evidences hleft
  obtain ⟨hright, hreplied'⟩ := replied_of_evidences hright
  exact ⟨world, hrun, hdecided.1, hdecided.2, (certificates_agree (Codec.tabled [])
    digest_injective trio rfl lowerRun (by decide +kernel) world hrun otherCertificate
    splitDecision rfl hleft hright hreplied hreplied').2⟩

end World

end Rhiza.QuePaxa
