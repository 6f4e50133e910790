import Rhiza.QuePaxa.ProposerSteps

/-! # Slots are handed out once

A slot is handed out as fresh at most once at each node, and only a proposer on a
fresh slot offers the highest priority at the first step. A restart forgets the
counter of the node, so what keeps later proposals away from slots that were used
before is the part of the log it recovers through before it serves again.
-/

namespace Rhiza.QuePaxa

open Foundations

namespace World

variable {codec : Codec} {config : Cluster} {world later : World}

/-- The request uses the fast path. -/
def FastRequest (request : RecordRequest) : Prop :=
  request.step = 4 ∧ request.proposal.priority = highestPriority

/-- The thread may still use the fast path of its slot, or has just used it. -/
def FastThread (thread : Thread) (node : NodeID) (slot : ℕ) : Prop :=
  thread.proposer.allowLeaderFastPath = true ∧ thread.proposer.node = node ∧
    thread.proposer.slot = slot

/-- The node will not hand out the slot as fresh: its counter has passed the slot, or
it recovers through the slot before it serves. -/
def Spent (world : World) (node : NodeID) (slot : ℕ) : Prop :=
  slot < (world.core node).nextSlot ∨ slot ≤ world.target node

/-- The allocation facts. -/
structure Allocated (world : World) : Prop where
  reserved_nodup : world.reserved.Nodup
  reserved_lt : ∀ {node slot}, (node, slot) ∈ world.reserved →
    slot < (world.core node).nextSlot
  four_le : ∀ {id thread}, world.threads.lookup id = some thread → 4 ≤ thread.proposer.step
  first_turn : ∀ {id thread}, world.threads.lookup id = some thread →
    thread.proposer.step = 4 → thread.proposer.proposal.proposerID = thread.proposer.node
  thread_taken : ∀ {id thread node slot}, world.threads.lookup id = some thread →
    FastThread thread node slot →
    slot < (world.core node).nextSlot ∧ (node, slot) ∉ world.reserved
  thread_unique : ∀ {id id' thread thread' node slot}, world.threads.lookup id = some thread →
    world.threads.lookup id' = some thread' → FastThread thread node slot →
    FastThread thread' node slot → id = id'
  request_taken : ∀ {recorder request}, (recorder, request) ∈ world.requests →
    FastRequest request → world.Spent request.proposal.proposerID request.slot ∧
      (request.proposal.proposerID, request.slot) ∉ world.reserved
  request_thread : ∀ {recorder request id thread}, (recorder, request) ∈ world.requests →
    FastRequest request → world.threads.lookup id = some thread →
    FastThread thread request.proposal.proposerID request.slot → thread.proposer.step = 4 →
    request.proposal.rank = thread.proposer.proposal.rank
  request_unique : ∀ {recorder recorder' request request'}, (recorder, request) ∈ world.requests →
    (recorder', request') ∈ world.requests → FastRequest request → FastRequest request' →
    request.slot = request'.slot →
    request.proposal.proposerID = request'.proposal.proposerID →
    request.proposal.rank = request'.proposal.rank

theorem allocated_initial (deployment : Deployment) : (initial deployment).Allocated :=
  ⟨List.nodup_nil, nofun, nofun, nofun, nofun, nofun, nofun, nofun, nofun⟩

/-- The allocation facts survive when threads, requests and reservations stay and no
counter goes back. -/
theorem Allocated.of_retains (hallot : world.Allocated)
    (hnext : ∀ node, (world.core node).nextSlot ≤ (later.core node).nextSlot)
    (htarget : later.target = world.target)
    (hjobs : later.threads = world.threads) (hbook : later.reserved = world.reserved)
    (hasks : later.requests = world.requests) : later.Allocated := by
  refine ⟨?_, ?_, ?_, ?_, ?_, ?_, ?_, ?_, ?_⟩
  · rw [hbook]
    exact hallot.reserved_nodup
  · intro node slot hmem
    rw [hbook] at hmem
    exact (hallot.reserved_lt hmem).trans_le (hnext node)
  · rw [hjobs]
    exact hallot.four_le
  · rw [hjobs]
    exact hallot.first_turn
  · intro id thread node slot hget hfast
    rw [hjobs] at hget
    rw [hbook]
    obtain ⟨hlt, hfree⟩ := hallot.thread_taken hget hfast
    exact ⟨hlt.trans_le (hnext node), hfree⟩
  · rw [hjobs]
    exact hallot.thread_unique
  · intro recorder request hmem hfast
    rw [hasks] at hmem
    rw [hbook]
    obtain ⟨hspent, hfree⟩ := hallot.request_taken hmem hfast
    refine ⟨?_, hfree⟩
    rcases hspent with hlt | hle
    · exact .inl (hlt.trans_le (hnext _))
    · exact .inr (htarget ▸ hle)
  · rw [hasks, hjobs]
    exact hallot.request_thread
  · rw [hasks]
    exact hallot.request_unique

variable {node : NodeID}

/-- No section of a replica short of a crash hands out a slot again. -/
theorem Allocated.perform (hallot : world.Allocated) {action : Action}
    (hcrash : action ≠ .crash) (hact : world.perform codec node action = some later) :
    later.Allocated := by
  obtain ⟨-, replica, hstep, rfl⟩ := perform_eq_some hact hcrash
  refine hallot.of_retains (fun other => ?_) rfl rfl rfl rfl
  by_cases hother : other = node
  · subst hother
    exact ((Replica.step_performs hstep).nextSlot_le hcrash).trans_eq
      (congrArg (fun replica : Replica => replica.core.nextSlot)
        (Function.update_self other replica world.replicas)).symm
  · exact (congrArg (fun replica : Replica => replica.core.nextSlot)
      (Function.update_of_ne hother replica world.replicas)).ge

/-- Each thread that remains continues one that was there, and left the first step
if it moved at all. -/
def Continues (world : World) (threads : Table ℕ Thread) : Prop :=
  ∀ id thread, threads.lookup id = some thread → ∃ before,
    world.threads.lookup id = some before ∧
      thread.proposer.node = before.proposer.node ∧
      thread.proposer.slot = before.proposer.slot ∧
      thread.proposer.allowLeaderFastPath = before.proposer.allowLeaderFastPath ∧
      (thread.proposer.step = 4 → thread.proposer = before.proposer)

variable {id : ℕ} {threads : Table ℕ Thread} {thread before : Thread} {slot : ℕ}
  {decisions : List Decision}

theorem Continues.fast (hcont : world.Continues threads)
    (hget : threads.lookup id = some thread) (hfast : FastThread thread node slot) :
    ∃ before, world.threads.lookup id = some before ∧ FastThread before node slot ∧
      (thread.proposer.step = 4 → thread.proposer = before.proposer) := by
  obtain ⟨before, hpre, hnode, hslot, hallow, hsame⟩ := hcont id thread hget
  exact ⟨before, hpre, ⟨hallow ▸ hfast.1, hnode ▸ hfast.2.1, hslot ▸ hfast.2.2⟩, hsame⟩

theorem Allocated.of_continues (hallot : world.Allocated) (hcont : world.Continues threads)
    (hfour : ∀ {id thread}, threads.lookup id = some thread → 4 ≤ thread.proposer.step) :
    ({ world with threads, decisions } : World).Allocated := by
  refine ⟨hallot.reserved_nodup, hallot.reserved_lt, hfour, ?_, ?_, ?_,
    hallot.request_taken, ?_, hallot.request_unique⟩
  · intro id thread hget hstep
    obtain ⟨before, hpre, -, -, -, hsame⟩ := hcont id thread hget
    have heq := hsame hstep
    rw [heq] at hstep ⊢
    exact hallot.first_turn hpre hstep
  · intro id thread node slot hget hfast
    obtain ⟨before, hpre, hfast, -⟩ := hcont.fast hget hfast
    exact hallot.thread_taken hpre hfast
  · intro id id' thread thread' node slot hget hget' hfast hfast'
    obtain ⟨before, hpre, hfast, -⟩ := hcont.fast hget hfast
    obtain ⟨before', hpre', hfast', -⟩ := hcont.fast hget' hfast'
    exact hallot.thread_unique hpre hpre' hfast hfast'
  · intro recorder request id thread hmem hask hget hfast hstep
    obtain ⟨before, hpre, hfast, hsame⟩ := hcont.fast hget hfast
    have heq := hsame hstep
    rw [heq] at hstep ⊢
    exact hallot.request_thread hmem hask hpre hfast hstep

theorem continues_erase (world : World) (id : ℕ) : world.Continues (world.threads.erase id) := by
  intro id' thread hget
  have hget := (Table.of_lookup_erase hget).2
  exact ⟨thread, hget, rfl, rfl, rfl, fun _ => rfl⟩

theorem continues_insert
    (hpre : world.threads.lookup id = some before) (thread : Thread)
    (hnode : thread.proposer.node = before.proposer.node)
    (hslot : thread.proposer.slot = before.proposer.slot)
    (hallow : thread.proposer.allowLeaderFastPath = before.proposer.allowLeaderFastPath)
    (hsame : thread.proposer.step = 4 → thread.proposer = before.proposer) :
    world.Continues (world.threads.insert id thread) := by
  intro id' thread' hget
  rcases Table.of_lookup_insert hget with ⟨heq, rfl⟩ | hget
  · exact ⟨before, heq ▸ hpre, hnode, hslot, hallow, hsame⟩
  · exact ⟨thread', hget, rfl, rfl, rfl, fun _ => rfl⟩

theorem Allocated.erase_thread (hallot : world.Allocated) (id : ℕ) :
    ({ world with threads := world.threads.erase id, decisions } : World).Allocated := by
  refine hallot.of_continues (world.continues_erase id) fun hget => ?_
  have hget := (Table.of_lookup_erase hget).2
  exact hallot.four_le hget

theorem Allocated.insert_thread (hallot : world.Allocated)
    (hpre : world.threads.lookup id = some before)
    (hnode : thread.proposer.node = before.proposer.node)
    (hslot : thread.proposer.slot = before.proposer.slot)
    (hallow : thread.proposer.allowLeaderFastPath = before.proposer.allowLeaderFastPath)
    (hstep : thread.proposer = before.proposer ∨ 4 < thread.proposer.step) :
    ({ world with threads := world.threads.insert id thread } : World).Allocated := by
  refine hallot.of_continues (continues_insert hpre thread hnode hslot hallow ?_) ?_
  · intro hfour
    rcases hstep with heq | hlt
    · exact heq
    · omega
  · intro id' thread' hget
    rcases Table.of_lookup_insert hget with ⟨-, rfl⟩ | hget
    · rcases hstep with heq | hlt
      · rw [heq]
        exact hallot.four_le hpre
      · exact hlt.le
    · exact hallot.four_le hget

theorem Allocated.conclude (hallot : world.Allocated) {summaries : List Summary} {bytes : Bytes}
    (hwrap : world.conclude codec id summaries bytes = some later) : later.Allocated := by
  obtain ⟨thread, offer, outcome, hjob, -, -, hwraps, rfl⟩ := conclude_eq_some hwrap
  have hfour := hallot.four_le hjob
  cases outcome with
  | decide => exact hallot.erase_thread id
  | advance step proposal =>
    refine hallot.insert_thread hjob rfl rfl rfl (.inr ?_)
    change 4 < step
    -- A turn never returns to the first step.
    cases hwraps <;> omega

variable {drawn : Priority} {proposer : Proposer}

/-- A proposer uses the fast path only on a fresh slot that its node leads. -/
theorem candidate_fast (hfour : proposer.step = 4)
    (hhigh : (proposer.candidate drawn).priority = highestPriority) :
    proposer.allowLeaderFastPath = true ∧ proposer.node = proposer.leader ∧
      proposer.candidate drawn = proposer.proposal := by
  unfold Proposer.candidate at hhigh ⊢
  by_cases hguard : proposer.step % 4 = 0 ∧ (4 < proposer.step ∨
      proposer.node ≠ proposer.leader ∨ proposer.allowLeaderFastPath = false)
  · rw [if_pos hguard] at hhigh
    exact absurd hhigh (randomPriority_ne_highest drawn)
  · rw [if_neg hguard]
    have hround : proposer.step % 4 = 0 := by rw [hfour]
    refine ⟨?_, ?_, rfl⟩
    · by_contra hallow
      exact hguard ⟨hround, .inr (.inr (Bool.eq_false_iff.mpr hallow))⟩
    · by_contra hlead
      exact hguard ⟨hround, .inr (.inl hlead)⟩

variable {recorders : List NodeID} {core : Core} {request : RecordRequest}

theorem offer_eq_ok
    (hoffer : core.offer codec proposer drawn = .ok (request, recorders)) :
    request.slot = proposer.slot ∧ request.step = proposer.step ∧
      request.proposal = proposer.candidate drawn := by
  obtain ⟨cluster, -, hoffer⟩ := bind_eq_ok.mp hoffer
  cases hoffer
  exact ⟨rfl, rfl, rfl⟩

/-- A request that uses the fast path belongs to the thread that owns the slot. -/
theorem Allocated.fast_offer (hallot : world.Allocated)
    (hjob : world.threads.lookup id = some thread)
    (hoffer : core.offer codec thread.proposer drawn = .ok (request, recorders))
    (hfast : FastRequest request) :
    FastThread thread request.proposal.proposerID request.slot ∧ thread.proposer.step = 4 ∧
      request.proposal = thread.proposer.proposal ∧
      request.proposal.proposerID = thread.proposer.leader := by
  obtain ⟨hslot, hstep, hprop⟩ := offer_eq_ok hoffer
  obtain ⟨hfour, hhigh⟩ := hfast
  rw [hstep] at hfour
  rw [hprop] at hhigh
  obtain ⟨hallow, hleads, hsame⟩ := candidate_fast hfour hhigh
  have hid := hallot.first_turn hjob hfour
  rw [hprop, hsame, hid, hslot]
  exact ⟨⟨hallow, rfl, rfl⟩, hfour, rfl, hleads⟩

/-- The requests after an offer. -/
theorem mem_send {requests : List (NodeID × RecordRequest)}
    {recorder : NodeID} {other : RecordRequest}
    (hmem : (recorder, other) ∈ requests ++ recorders.map (fun recorder => (recorder, request))) :
    (recorder, other) ∈ requests ∨ other = request := by
  rcases List.mem_append.mp hmem with hmem | hmem
  · exact .inl hmem
  · obtain ⟨_, -, heq⟩ := List.mem_map.mp hmem
    exact .inr (Prod.mk.inj heq).2.symm

theorem Allocated.send (hallot : world.Allocated)
    (hsend : world.send codec id drawn = some later) : later.Allocated := by
  obtain ⟨thread, request, recorders, hjob, -, -, hoffer, rfl⟩ := send_eq_some hsend
  have hcont : world.Continues (world.threads.insert id { thread with
      waiting := some ⟨request, recorders,
        (world.core thread.proposer.node).offerQuorum thread.proposer.slot⟩ }) :=
    continues_insert hjob { thread with waiting := _ } rfl rfl rfl fun _ => rfl
  have hkept : ({ world with threads := world.threads.insert id { thread with
      waiting := some ⟨request, recorders,
        (world.core thread.proposer.node).offerQuorum thread.proposer.slot⟩ } } :
          World).Allocated := hallot.insert_thread hjob rfl rfl rfl (.inl rfl)
  refine ⟨hallot.reserved_nodup, hallot.reserved_lt, hkept.four_le, hkept.first_turn,
    hkept.thread_taken, hkept.thread_unique, ?_, ?_, ?_⟩
  · intro recorder other hmem hfast
    rcases mem_send hmem with hold | rfl
    · exact hallot.request_taken hold hfast
    · obtain ⟨howner, -⟩ := hallot.fast_offer hjob hoffer hfast
      obtain ⟨hlt, hfree⟩ := hallot.thread_taken hjob howner
      exact ⟨.inl hlt, hfree⟩
  · intro recorder other id' thread' hmem hfast hget hjob' hfour
    rcases mem_send hmem with hold | rfl
    · exact hkept.request_thread hold hfast hget hjob' hfour
    · obtain ⟨howner, -, hsame, -⟩ := hallot.fast_offer hjob hoffer hfast
      obtain ⟨before, hpre, hfast', heq⟩ := hcont.fast hget hjob'
      obtain rfl := hallot.thread_unique hpre hjob hfast' howner
      rw [hjob] at hpre
      cases hpre
      rw [hsame, heq hfour]
  · intro recorder recorder' left right hleft hright hfast hfast' hslot' hid
    rcases mem_send hleft with hold | rfl
    · rcases mem_send hright with hold' | rfl
      · exact hallot.request_unique hold hold' hfast hfast' hslot' hid
      · obtain ⟨howner, hfour, hsame, -⟩ := hallot.fast_offer hjob hoffer hfast'
        rw [hsame]
        exact hallot.request_thread hold hfast hjob (by rwa [hid, hslot']) hfour
    · obtain ⟨howner, hfour, hsame, -⟩ := hallot.fast_offer hjob hoffer hfast
      rcases mem_send hright with hold' | rfl
      · rw [hsame]
        exact (hallot.request_thread hold' hfast' hjob (by rwa [← hid, ← hslot']) hfour).symm
      · rfl

theorem Allocated.start (hallot : world.Allocated) {id : ℕ} {value : Bytes} {fresh : Bool}
    (hstart : world.start codec id node slot value fresh = some later) : later.Allocated := by
  obtain ⟨-, htoken, order, leader, -, -, rfl⟩ := start_eq_some hstart
  have hbook : ∀ {entry}, entry ∈ (if fresh then world.reserved.erase (node, slot)
      else world.reserved) → entry ∈ world.reserved := by
    intro entry hmem
    split at hmem
    · exact List.mem_of_mem_erase hmem
    · exact hmem
  -- The new thread may use the fast path only if it took its slot from the reserved ones.
  have hnew : ∀ {node' slot'},
      FastThread ⟨Proposer.start codec node slot leader value fresh, none⟩ node' slot' →
        fresh = true ∧ node = node' ∧ slot = slot' := fun hfast => hfast
  have hget : ∀ {id' thread'}, (world.threads.insert id
      (⟨Proposer.start codec node slot leader value fresh, none⟩ : Thread)).lookup id' =
        some thread' →
      (id' = id ∧ thread' = ⟨Proposer.start codec node slot leader value fresh, none⟩) ∨
        world.threads.lookup id' = some thread' := by
    intro id' thread' h
    rw [Table.lookup_insert_eq] at h
    split at h
    · rename_i heq
      exact .inl ⟨heq, (Option.some_inj.mp h).symm⟩
    · exact .inr h
  refine ⟨?_, ?_, ?_, ?_, ?_, ?_, ?_, ?_, hallot.request_unique⟩
  · change (if fresh then world.reserved.erase (node, slot) else world.reserved).Nodup
    split
    · exact hallot.reserved_nodup.erase _
    · exact hallot.reserved_nodup
  · exact fun hmem => hallot.reserved_lt (hbook hmem)
  · intro id' thread' h
    rcases hget h with ⟨-, rfl⟩ | hold
    · exact le_rfl
    · exact hallot.four_le hold
  · intro id' thread' h hstep
    rcases hget h with ⟨-, rfl⟩ | hold
    · rfl
    · exact hallot.first_turn hold hstep
  · intro id' thread' node' slot' h hfast
    rcases hget h with ⟨-, rfl⟩ | hold
    · obtain ⟨rfl, rfl, rfl⟩ := hnew hfast
      refine ⟨hallot.reserved_lt (htoken rfl), ?_⟩
      rw [if_pos rfl]
      exact fun hmem => (List.Nodup.mem_erase_iff hallot.reserved_nodup).mp hmem |>.1 rfl
    · obtain ⟨hlt, hfree⟩ := hallot.thread_taken hold hfast
      exact ⟨hlt, fun hmem => hfree (hbook hmem)⟩
  · intro id₁ id₂ thread₁ thread₂ node' slot' h₁ h₂ hfast₁ hfast₂
    rcases hget h₁ with ⟨heq₁, rfl⟩ | hold₁
    · rcases hget h₂ with ⟨heq₂, -⟩ | hold₂
      · rw [heq₁, heq₂]
      · obtain ⟨rfl, rfl, rfl⟩ := hnew hfast₁
        exact absurd (htoken rfl) (hallot.thread_taken hold₂ hfast₂).2
    · rcases hget h₂ with ⟨-, rfl⟩ | hold₂
      · obtain ⟨rfl, rfl, rfl⟩ := hnew hfast₂
        exact absurd (htoken rfl) (hallot.thread_taken hold₁ hfast₁).2
      · exact hallot.thread_unique hold₁ hold₂ hfast₁ hfast₂
  · intro recorder request hmem hfast
    obtain ⟨hspent, hfree⟩ := hallot.request_taken hmem hfast
    exact ⟨hspent, fun hmem => hfree (hbook hmem)⟩
  · intro recorder request id' thread' hmem hask h hfast hstep
    rcases hget h with ⟨-, rfl⟩ | hold
    · obtain ⟨rfl, hnode, hslot⟩ := hnew hfast
      have hfree := (hallot.request_taken hmem hask).2
      rw [← hnode, ← hslot] at hfree
      exact absurd (htoken rfl) hfree
    · exact hallot.request_thread hmem hask hold hfast hstep

/-- A fresh slot is at or beyond the counter, which moves past it, and beyond the tip. -/
theorem reserveSlot_fresh (core : Core) :
    core.nextSlot ≤ core.reserveSlot.1.nextSlot ∧
      (core.reserveSlot.2.2 = false → core.nextSlot ≤ core.reserveSlot.2.1 ∧
        core.tip < core.reserveSlot.2.1 ∧
        core.reserveSlot.2.1 < core.reserveSlot.1.nextSlot) := by
  unfold Core.reserveSlot
  split
  · exact ⟨le_rfl, nofun⟩
  · refine ⟨(le_max_left _ _).trans (Nat.le_succ _), fun _ => ⟨le_max_left _ _, ?_, ?_⟩⟩
    · exact (Nat.lt_succ_self core.tip).trans_le ((le_max_left _ _).trans (le_max_right _ _))
    · exact Nat.lt_succ_self _

theorem core_setCore (world : World) (node other : NodeID) (core : Core) :
    (world.setCore node core).core other = if other = node then core else world.core other := by
  by_cases hother : other = node
  · subst hother
    simp [World.setCore, World.core]
  · simp [World.setCore, World.core, hother]

theorem Allocated.setCore (hallot : world.Allocated)
    (hnext : (world.core node).nextSlot ≤ core.nextSlot) : (world.setCore node core).Allocated := by
  refine hallot.of_retains ?_ rfl rfl rfl rfl
  intro other
  rw [core_setCore]
  split
  · rename_i heq
    rw [heq]
    exact hnext
  · exact le_rfl

theorem Allocated.reserve (hallot : world.Allocated)
    (hreserve : world.reserve node = some later) : later.Allocated := by
  unfold World.reserve at hreserve
  split at hreserve
  · rename_i hready
    cases hreserve
    obtain ⟨hnext, hfresh⟩ := reserveSlot_fresh (world.core node)
    have hset := hallot.setCore hnext
    by_cases hreused : (world.core node).reserveSlot.2.2 = true
    · rw [if_pos hreused]
      exact hset
    · obtain ⟨hge, htip, hlt⟩ := hfresh (Bool.eq_false_iff.mpr hreused)
      -- The new slot is beyond the counter, and beyond what the node recovers through.
      have hunused : ∀ {node' slot}, world.Spent node' slot →
          (node', slot) ≠ (node, (world.core node).reserveSlot.2.1) := by
        rintro node' slot hspent heq
        obtain ⟨rfl, rfl⟩ := Prod.mk.inj heq
        rcases hspent with hold | hold <;> omega
      rw [if_neg hreused]
      refine ⟨?_, ?_, hset.four_le, hset.first_turn, ?_, hset.thread_unique, ?_,
        hset.request_thread, hset.request_unique⟩
      · refine List.nodup_cons.mpr ⟨fun hmem => ?_, hallot.reserved_nodup⟩
        exact hunused (.inl (hallot.reserved_lt hmem)) rfl
      · intro node' slot hmem
        rcases List.mem_cons.mp hmem with heq | hmem
        · obtain ⟨rfl, rfl⟩ := Prod.mk.inj heq
          change _ < ((world.setCore node' _).core node').nextSlot
          rw [core_setCore, if_pos rfl]
          exact hlt
        · exact hset.reserved_lt hmem
      · intro id thread node' slot hget hfast
        refine ⟨(hset.thread_taken hget hfast).1, fun hmem => ?_⟩
        obtain ⟨hold, hfree⟩ := hallot.thread_taken hget hfast
        rcases List.mem_cons.mp hmem with heq | hmem
        · exact hunused (.inl hold) heq
        · exact hfree hmem
      · intro recorder request hmem hfast
        obtain ⟨hold, hfree⟩ := hallot.request_taken hmem hfast
        refine ⟨(hset.request_taken hmem hfast).1, fun hmem => ?_⟩
        rcases List.mem_cons.mp hmem with heq | hmem
        · exact hunused hold heq
        · exact hfree hmem
  · cases hreserve

/-- The events at a node that leave its replica in place, apart from slots that it
hands out or takes back. -/
theorem Allocated.network (hallot : world.Allocated) {event : Event}
    (hstep : world.step codec event = some later)
    (hevent : ∀ node action, event ≠ .perform node action) : later.Allocated := by
  cases event with
  | perform node action => exact absurd rfl (hevent node action)
  | reserve => exact hallot.reserve hstep
  | release =>
    cases hstep
    refine hallot.setCore ?_
    unfold Core.releaseSlot
    split <;> exact le_rfl
  | start => exact hallot.start hstep
  | send => exact hallot.send hstep
  | adopt id =>
    obtain ⟨thread, decided, -, -, rfl⟩ := adopt_eq_some hstep
    exact hallot.erase_thread id
  | serve =>
    obtain ⟨decided, decision, -, -, rfl⟩ := serve_eq_some hstep
    exact hallot.of_retains (fun _ => le_rfl) rfl rfl rfl rfl
  | conclude => exact hallot.conclude hstep
  | stop id =>
    cases hstep
    exact hallot.erase_thread id

end World

end Rhiza.QuePaxa
