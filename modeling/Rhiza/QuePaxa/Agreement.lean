import Rhiza.QuePaxa.Allocation
import Rhiza.QuePaxa.RecorderSteps

/-! # Single-slot agreement

In a run without crashes the histories of all slots are sound, so all decisions for a
slot carry the same value. Soundness of a slot needs the leader of the slot to be unique:
a proposer on the fast path offers for the node that its schedule names. Schedules are
decided in earlier slots, so the argument is an induction on the slot.
-/

namespace Rhiza.QuePaxa

open Foundations

/-- No process crashes. -/
def Event.crashFree : Event → Bool
  | .perform _ action => action ≠ .crash
  | _ => true

namespace World

variable {codec : Codec} {config : Cluster} {world later : World}

/-- A schedule of the slot names this leader. -/
def LeaderOf (codec : Codec) (config : Cluster) (world : World) (slot : ℕ) (leader : NodeID) :
    Prop :=
  ∃ order, world.Scheduled codec config slot order ∧ order.head? = some leader

theorem LeaderOf.grow {slot : ℕ} {leader : NodeID}
    (hlead : world.LeaderOf codec config slot leader) (hgrows : world.Grows later) :
    later.LeaderOf codec config slot leader := by
  obtain ⟨order, horder, hhead⟩ := hlead
  exact ⟨order, horder.grow hgrows, hhead⟩

/-- Proposers at their first step and fast offers name a leader of their slot. -/
structure Led (codec : Codec) (config : Cluster) (world : World) : Prop where
  threads : ∀ {id thread}, world.threads.lookup id = some thread → thread.proposer.step = 4 →
    world.LeaderOf codec config thread.proposer.slot thread.proposer.leader
  requests : ∀ {recorder request}, (recorder, request) ∈ world.requests → FastRequest request →
    world.LeaderOf codec config request.slot request.proposal.proposerID

section Led

variable (hled : world.Led codec config) {node : NodeID} {id : ℕ}
include hled

/-- Leaders stay leaders when threads and requests stay. -/
theorem Led.grow (hgrows : world.Grows later) (hjobs : later.threads = world.threads)
    (hasks : later.requests = world.requests) : later.Led codec config := by
  refine ⟨?_, ?_⟩
  · intro id thread hget hstep
    rw [hjobs] at hget
    exact (hled.threads hget hstep).grow hgrows
  · intro recorder request hmem hfast
    rw [hasks] at hmem
    exact (hled.requests hmem hfast).grow hgrows

/-- A section of a replica starts no thread and sends no request. -/
theorem Led.perform {action : Action} (hcrash : action ≠ .crash)
    (hact : world.perform codec node action = some later) : later.Led codec config := by
  obtain ⟨-, replica, -, rfl⟩ := perform_eq_some hact hcrash
  exact hled.grow world.grows_answers rfl rfl

theorem Led.of_continues {threads : Table ℕ Thread} (hcont : world.Continues threads)
    {decisions : List Decision} (hkept : ∃ more, decisions = world.decisions ++ more) :
    ({ world with threads, decisions } : World).Led codec config := by
  have hgrows : world.Grows { world with threads, decisions } :=
    ⟨List.Subset.refl _, List.Subset.refl _, hkept⟩
  refine ⟨?_, fun hmem hfast => (hled.requests hmem hfast).grow hgrows⟩
  intro id thread hget hstep
  obtain ⟨before, hpre, -, -, -, hsame⟩ := hcont id thread hget
  have heq := hsame hstep
  rw [heq] at hstep ⊢
  exact (hled.threads hpre hstep).grow hgrows

theorem Led.send (hallot : world.Allocated) {drawn : Priority}
    (hsend : world.send codec id drawn = some later) : later.Led codec config := by
  obtain ⟨thread, request, recorders, hjob, -, -, hoffer, rfl⟩ := send_eq_some hsend
  refine ⟨?_, ?_⟩
  · intro id' thread' hget hstep
    rcases Table.of_lookup_insert hget with ⟨-, rfl⟩ | hget
    · have hlead := hled.threads hjob
      exact hlead hstep
    · exact hled.threads hget hstep
  · intro recorder other hmem hfast
    rcases mem_send hmem with hold | rfl
    · exact hled.requests hold hfast
    · obtain ⟨⟨-, -, hslot⟩, hfour, -, hlead⟩ := hallot.fast_offer hjob hoffer hfast
      rw [hlead, ← hslot]
      exact hled.threads hjob hfour

theorem Led.start (hlaw : world.Coherent codec config) {slot : ℕ} {value : Bytes} {fresh : Bool}
    (hstart : world.start codec id node slot value fresh = some later) :
    later.Led codec config := by
  obtain ⟨-, -, order, leader, horder, hhead, rfl⟩ := start_eq_some hstart
  refine ⟨?_, hled.requests⟩
  intro id' thread' hget hstep
  rcases Table.of_lookup_insert hget with ⟨-, rfl⟩ | hget
  · exact ⟨order, (hlaw.atNode node).leaderOrder_scheduled horder, hhead⟩
  · exact hled.threads hget hstep

theorem Led.conclude (hallot : world.Allocated) {summaries : List Summary}
    {bytes : Bytes} (hwrap : world.conclude codec id summaries bytes = some later) :
    later.Led codec config := by
  obtain ⟨thread, offer, outcome, hjob, -, -, hwraps, rfl⟩ := conclude_eq_some hwrap
  have hfour := hallot.four_le hjob
  cases outcome with
  | decide => exact hled.of_continues (world.continues_erase id) ⟨_, rfl⟩
  | advance step proposal =>
    refine hled.of_continues (continues_insert hjob
      ⟨{ thread.proposer with step, proposal }, none⟩ rfl rfl rfl fun hstep => ?_)
      ⟨[], (List.append_nil _).symm⟩
    change step = 4 at hstep
    cases hwraps <;> omega

end Led

/-- The invariant of runs without crashes. -/
structure Steady (codec : Codec) (config : Cluster) (world : World) : Prop where
  coherent : world.Coherent codec config
  allocated : world.Allocated
  led : world.Led codec config

theorem Steady.step (hworld : world.Steady codec config) {event : Event}
    (hfree : event.crashFree = true) (hstep : world.step codec event = some later) :
    later.Steady codec config := by
  obtain ⟨hlaw, hallot, hled⟩ := hworld
  cases event with
  | perform node action =>
    have hcrash : action ≠ .crash := of_decide_eq_true hfree
    refine ⟨hlaw.perform hcrash hstep, ?_, hled.perform hcrash hstep⟩
    exact hallot.perform hcrash hstep
  | reserve =>
    refine ⟨hlaw.reserve hstep, hallot.reserve hstep, ?_⟩
    simp only [World.step, World.reserve] at hstep
    split at hstep
    · cases hstep
      exact hled.grow world.grows_same rfl rfl
    · cases hstep
  | release node slot =>
    have hkept := hallot.network hstep fun _ _ => by simp
    cases hstep
    have hvotes := Core.releaseSlot_votes (world.core node) slot
    exact ⟨hlaw.setCore hvotes, hkept, hled.grow world.grows_same rfl rfl⟩
  | start =>
    exact ⟨hlaw.start hstep, hallot.start hstep, hled.start hlaw hstep⟩
  | send =>
    exact ⟨hlaw.send hstep, hallot.send hstep, hled.send hallot hstep⟩
  | adopt id =>
    refine ⟨hlaw.adopt hstep, hallot.network hstep fun _ _ => by simp, ?_⟩
    obtain ⟨thread, decided, -, -, rfl⟩ := adopt_eq_some hstep
    exact hled.of_continues (world.continues_erase id) ⟨_, rfl⟩
  | serve =>
    refine ⟨hlaw.serve hstep, hallot.network hstep fun _ _ => by simp, ?_⟩
    obtain ⟨decided, decision, -, -, rfl⟩ := serve_eq_some hstep
    exact hled.grow world.grows_decisions rfl rfl
  | conclude =>
    exact ⟨hlaw.conclude hstep, hallot.conclude hstep, hled.conclude hallot hstep⟩
  | stop id =>
    have hkept := hallot.network hstep fun _ _ => by simp
    cases hstep
    exact ⟨hlaw.erase_thread id, hkept,
      hled.of_continues (world.continues_erase id) ⟨[], (List.append_nil _).symm⟩⟩

theorem steady_initial (codec : Codec) (deployment : Deployment)
    (hfixed : deployment.reconfigEnabled = false) :
    (initial deployment).Steady codec deployment.config := by
  refine ⟨⟨fun node => ?_, ?_⟩, allocated_initial deployment, ⟨nofun, nofun⟩⟩
  · exact ⟨rfl, rfl, hfixed, fun hne => absurd rfl hne, fun hne => absurd rfl hne, nofun, nofun,
      nofun, nofun, nofun, fun _ => ISR.sourced_empty _, nofun⟩
  · refine ⟨nofun, nofun, nofun, nofun, ?_, ?_, ?_⟩
    · rintro _ _ _ _ _ _ _ _ _ ⟨_, hmem, -⟩
      cases hmem
    · rintro _ _ _ _ _ _ _ _ _ ⟨_, hmem, -⟩
      cases hmem
    · rintro _ _ _ _ ⟨_, hmem, -⟩
      cases hmem

/-- Every run without crashes keeps the invariant. -/
theorem steady_run {deployment : Deployment} (hfixed : deployment.reconfigEnabled = false)
    {events : List Event} (hfree : ∀ event ∈ events, event.crashFree = true)
    (hrun : (initial deployment).run codec events = some world) :
    world.Steady codec deployment.config :=
  (guarded_of_forall hfree _).invariant (fun hworld hevent hstep => hworld.step hevent hstep)
    hrun (steady_initial codec deployment hfixed)

/-- The value is decided for the slot: a decision for it was returned, or some node
has installed it. -/
def Chosen (world : World) (slot : ℕ) (hash : ValueHash) : Prop :=
  (∃ decision ∈ world.decisions, decision.slot = slot ∧ decision.proposal.hash = hash) ∨
    ∃ node decided, (world.core node).decided.lookup slot = some decided ∧ decided.hash = hash

variable {slot : ℕ} {hash : ValueHash}

theorem Chosen.certified (hlaw : world.Coherent codec config)
    (hchose : world.Chosen slot hash) : ∃ rank step proposal,
      (world.history slot).Certified (voters config) Highest rank step proposal ∧
        Rank.hash proposal = hash := by
  rcases hchose with ⟨decision, hmem, hslot, rfl⟩ | ⟨node, decided, hlook, rfl⟩
  · obtain ⟨rank, hlt, hget⟩ := List.mem_iff_getElem.mp hmem
    have hdec : (world.history slot).Decided rank decision.step decision.proposal.rank :=
      ⟨decision, List.getElem?_eq_some_iff.mpr ⟨hlt, hget⟩, hslot, rfl, rfl⟩
    exact ⟨rank, decision.step, _, hlaw.protocol.certified hdec, rfl⟩
  · have hlaid := (hlaw.atNode node).installed hlook
    exact ⟨_, _, _, hlaw.protocol.installed_certified hlaid, hlaid.2.2.2.1⟩

theorem Installed.chosen {decided : DecidedValue}
    (hlaid : world.Installed codec slot decided) : world.Chosen slot decided.hash := by
  obtain ⟨-, -, -, hprop, decision, hmem, hslot, -, hrank⟩ := hlaid
  refine .inl ⟨decision, hmem, hslot, ?_⟩
  exact (congrArg Rank.hash hrank).trans hprop

/-- The leader of a slot is unique once the slots before it agree. -/
theorem leader_unique (hinj : Function.Injective codec.sha256)
    (hbelow : ∀ {slot' hash hash'}, slot' < slot → world.Chosen slot' hash →
      world.Chosen slot' hash' → hash = hash')
    {leader leader' : NodeID} (hleft : world.LeaderOf codec config slot leader)
    (hright : world.LeaderOf codec config slot leader') : leader = leader' := by
  obtain ⟨order, horder, hhead⟩ := hleft
  obtain ⟨order', horder', hhead'⟩ := hright
  have hsame : order = order' := by
    rcases horder with ⟨hlt, rfl⟩ | ⟨hge, decided, hlaid, hplan⟩
    · rcases horder' with ⟨-, rfl⟩ | ⟨hge, -⟩
      · rfl
      · omega
    · rcases horder' with ⟨hlt, -⟩ | ⟨-, decided', hlaid', hplan'⟩
      · omega
      · have hcontrol := leaderEpochFirst_lt (show 0 < leaderEpoch slot by omega)
        have hhash := hbelow hcontrol hlaid.chosen hlaid'.chosen
        have hvalue : decided.value = decided'.value := by
          apply hinj
          rw [hlaid.2.1, hlaid'.2.1, hhash]
        simp only [Core.scheduleOf, hvalue] at hplan hplan'
        exact Except.ok.inj (hplan.symm.trans hplan')
  rw [hsame, hhead'] at hhead
  exact (Option.some_inj.mp hhead).symm

section Steady

variable (hworld : world.Steady codec config) (hinj : Function.Injective codec.sha256)
include hworld hinj

/-- The history of a slot is sound once the slots before it agree. -/
theorem Steady.sound
    (hbelow : ∀ {slot' hash hash'}, slot' < slot → world.Chosen slot' hash →
      world.Chosen slot' hash' → hash = hash') :
    (world.history slot).Sound (voters config) Highest Rank.hash where
  four_le := by
    rintro step proposal ⟨⟨recorder, request⟩, hmem, -, rfl, -⟩
    exact (hworld.coherent.protocol.requested hmem).1
  first_sent := by
    rintro recorder step offer first prior ⟨answer, hmem, hreg, hshows⟩
    rcases (hworld.coherent.protocol.answered hmem).2 with
        ⟨-, state, hborn, -, -, hstep, hfirst, -⟩ | ⟨hecho, -⟩
    · obtain ⟨rfl, -, -, hnow, -, hkey, -⟩ := hshows
      rw [hfirst, Option.map_eq_some_iff] at hkey
      obtain ⟨proposal, hsome, rfl⟩ := hkey
      rw [← hnow, hstep]
      exact hborn.first hsome
    · rw [hreg] at hecho
      cases hecho
  prior_sent := by
    rintro recorder step offer first proposal ⟨answer, hmem, hreg, hshows⟩
    rcases (hworld.coherent.protocol.answered hmem).2 with
        ⟨-, state, hborn, -, -, hstep, -, hprior⟩ | ⟨hecho, -⟩
    · obtain ⟨rfl, -, -, hnow, -, -, hkey⟩ := hshows
      rw [hprior, Option.map_eq_some_iff] at hkey
      obtain ⟨aggregate, hsome, rfl⟩ := hkey
      obtain ⟨before, hpre, hsent⟩ := hborn.prior hsome
      have heq : before = step := by omega
      exact heq ▸ hsent
    · rw [hreg] at hecho
      cases hecho
  first_stable := hworld.coherent.protocol.first_stable
  prior_dominates := hworld.coherent.protocol.prior_dominates
  sent_origin := by
    rintro step proposal ⟨⟨recorder, request⟩, hmem, rfl, rfl, rfl⟩ hlt
    exact (hworld.coherent.protocol.requested hmem).2 hlt
  decided_certified := hworld.coherent.protocol.certified
  highest_upward := by
    intro lower upper hlower hle
    exact le_antisymm (Fin.le_last _) (hlower ▸ Rank.priority_le hle)
  highest_unique := by
    rintro left right ⟨⟨recorder, request⟩, hmem, hslot, hstep, rfl⟩
      ⟨⟨recorder', request'⟩, hmem', hslot', hstep', rfl⟩ hhigh hhigh'
    have hfast : FastRequest request := ⟨hstep, hhigh⟩
    have hfast' : FastRequest request' := ⟨hstep', hhigh'⟩
    have hlead := hworld.led.requests hmem hfast
    have hlead' := hworld.led.requests hmem' hfast'
    dsimp only at hslot hslot'
    rw [hslot] at hlead
    rw [hslot'] at hlead'
    exact hworld.allocated.request_unique hmem hmem' hfast hfast' (hslot.trans hslot'.symm)
      (leader_unique hinj hbelow hlead hlead')

/-- The slots below the given one agree in every steady world. -/
theorem Steady.chosen_agree {hash' : ValueHash} (hleft : world.Chosen slot hash)
    (hright : world.Chosen slot hash') : hash = hash' := by
  induction slot using Nat.strong_induction_on generalizing hash hash' with
  | _ slot ih =>
    have hsound := hworld.sound hinj fun hlt hleft hright => ih _ hlt hleft hright
    obtain ⟨_, _, _, hcert, rfl⟩ := hleft.certified hworld.coherent
    obtain ⟨_, _, _, hcert', rfl⟩ := hright.certified hworld.coherent
    exact hsound.certified_agree hcert hcert'

end Steady

/-- Single-slot agreement: with one configuration and no crash, whatever the proposers,
the recorders and the network do, all decisions for a slot that were returned by
proposers or installed at replicas carry the same value. -/
theorem decisions_agree (codec : Codec) (hinjective : Function.Injective codec.sha256)
    (deployment : Deployment) (hfixed : deployment.reconfigEnabled = false)
    (events : List Event) (hfree : ∀ event ∈ events, event.crashFree = true) (world : World)
    (hrun : (initial deployment).run codec events = some world) (slot : ℕ)
    (hash hash' : ValueHash) (hleft : world.Chosen slot hash) (hright : world.Chosen slot hash') :
    hash = hash' :=
  (steady_run hfixed hfree hrun).chosen_agree hinjective hleft hright

/-- The leader's offer for slot one. -/
def leaderRequest (value : Bytes) : RecordRequest where
  slot := 1
  step := 4
  configID := 1
  reconfigurationID := 0
  proposal := ⟨highestPriority, [65], digest value, value⟩

/-- The summary of a recorder that saw the leader's offer first. -/
def leaderSummary (recorder : NodeID) (value : Bytes) : Summary where
  recorderID := recorder
  reconfigurationID := 0
  step := 4
  firstCurrent := some ⟨highestPriority, [65], digest value, []⟩
  aggregatePrior := none

/-- The fast decision for slot one on the answers of the last two voters. -/
def leaderDecision (value : Bytes) : Decision where
  configID := 0
  slot := 1
  step := 4
  proposal := ⟨highestPriority, [65], digest value, value⟩
  summaries := [leaderSummary [66] value, leaderSummary [67] value]

/-- The leader of slot one decides a value and one other voter learns it. -/
def fastRun (value : Bytes) : List Event :=
  [.reserve [65], .start 0 [65] 1 value true, .send 0 0] ++
    answerNow [66] (leaderRequest value) ++ answerNow [67] (leaderRequest value) ++
    [.conclude 0 [leaderSummary [66] value, leaderSummary [67] value] value] ++
    installNow [65] (leaderDecision value) 1 ++ installNow [67] (leaderDecision value) 1

theorem decisions_agree_fastRun : ∃ world,
    (initial trio).run (Codec.tabled []) (fastRun [7]) = some world ∧
      world.Chosen 1 (digest [7]) ∧ ∀ hash, world.Chosen 1 hash → hash = digest [7] := by
  obtain ⟨world, hrun, decided, hdecided, hhash⟩ : ∃ world,
      (initial trio).run (Codec.tabled []) (fastRun [7]) = some world ∧ ∃ decided,
        (world.core [67]).decided.lookup 1 = some decided ∧ decided.hash = digest [7] := by
    decide +kernel
  have hchosen : world.Chosen 1 (digest [7]) := .inr ⟨[67], decided, hdecided, hhash⟩
  refine ⟨world, hrun, hchosen, fun hash hother => ?_⟩
  exact decisions_agree (Codec.tabled []) digest_injective trio rfl (fastRun [7])
    (by decide +kernel) world hrun 1 hash (digest [7]) hother hchosen

end World

end Rhiza.QuePaxa
