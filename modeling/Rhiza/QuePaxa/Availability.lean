import Rhiza.QuePaxa.Promises
import Rhiza.QuePaxa.Retention

/-! # Durable values

Whenever a value counts as durable, and whenever a recorder has answered with a
proposal for a slot that is still open, a restart finds the bytes. This is not so for
every run: staging trusts bytes that are in memory but not in the log. The condition
below says, for each section, what has to be in the log before it.
-/

namespace Rhiza.QuePaxa

open Foundations

/-- The value that a waiting call stores for its own sake. -/
def Pending.stored : Pending → Option ValueHash
  | .storeValue hash => some hash
  | _ => none

namespace Replica

variable {codec : Codec} {replica next : Replica} {action : Action} {hash : ValueHash}

/-- A running compaction does not take the bytes out of the log. -/
def Spares (replica : Replica) (hash : ValueHash) : Prop :=
  ∀ running ∈ replica.compaction, running.committed = false →
    Carries replica.core.wal.entries hash →
      Carries (replica.core.wal.commitCompaction running).entries hash

section Stocked

variable (hrep : replica.Stocked) {slot : ℕ} {call : Pending × Bool}
include hrep

/-- A marker of a decided slot carries the bytes of the decision. -/
theorem Stocked.carries_decided (hrule : replica.Disciplined codec) {log : List Entry}
    (hlog : log ⊆ replica.core.wal.entries) {decided : DecidedValue}
    (hget : replica.core.decided.lookup slot = some decided) (hmark : Marked slot log) :
    Carries log decided.hash := by
  obtain ⟨value, hmem, rfl⟩ := hmark
  rw [hrep.agree (hlog hmem) hget]
  exact carries_of_marker hmem (hrule.markers (hlog hmem))

/-- The register of an undecided slot names bytes that are in the log and survive. -/
theorem Stocked.backs_recorder (hkept : replica.Kept codec)
    (hfloor : replica.core.floor < slot) (hunset : replica.core.decided.lookup slot = none)
    {proposal : Proposal} (hmem : proposal ∈ (replica.core.recorder slot).proposals) :
    replica.Backs replica.core.wal.entries slot proposal.hash := by
  rw [Core.recorder, hkept.current hfloor hunset] at hmem
  cases hlast : lastReceipt slot replica.core.wal.entries with
  | none =>
    rw [hlast] at hmem
    cases hmem
  | some register =>
    rw [hlast] at hmem
    refine hrep.supplied slot register hfloor ?_ hlast proposal hmem
    -- A marker above the floor would have decided the slot.
    rintro ⟨value, htag, rfl⟩
    have hsome := hrep.found htag hfloor
    rw [hunset] at hsome
    cases hsome

/-- An answer of the register keeps the stock when the offered bytes are in the log. -/
theorem Stocked.record (hkept : replica.Kept codec) {request : RecordRequest}
    (hfloor : replica.core.floor < request.slot)
    (hunset : replica.core.decided.lookup request.slot = none)
    (hknown : (replica.core.values.lookup request.proposal.hash).isSome)
    (hbear : Carries replica.core.wal.entries request.proposal.hash)
    (hspares : replica.Spares request.proposal.hash) :
    Stocked { replica with
      core := (replica.core.answerRegister request).1
      pending := replica.wait (.record request (replica.core.answerRegister request).2.1
        (replica.core.answerRegister request).2.2) } := by
  set register := (replica.core.recorder request.slot).next request.step request.proposal.ref
  set next : Replica := { replica with
    core := (replica.core.answerRegister request).1, pending := _ }
  have hgrew : replica.core.Appends next.core
      [.receipt request.slot request.proposal.ref.hash register replica.core.reconfigEnabled] :=
    ⟨rfl, rfl, rfl, id, WAL.entries_append _ _, .inl rfl, by simp, .inl rfl⟩
  have hbacks : ∀ {slot hash}, replica.Backs replica.core.wal.entries slot hash →
      next.Backs next.core.wal.entries slot hash :=
    fun hbacks => hbacks.appends hkept.disciplined hgrew rfl
  have hreg : ∀ proposal ∈ register.proposals,
      next.Backs next.core.wal.entries request.slot proposal.hash := by
    intro proposal hmem
    rcases ISR.mem_proposals_next hmem with rfl | hold
    · exact hbacks ⟨hbear, fun running hgoing hopen _ => hspares running hgoing hopen hbear⟩
    · exact hbacks (hrep.backs_recorder hkept hfloor hunset hold)
  refine hrep.appends hkept.disciplined hgrew rfl ?_ ?_ ?_
  · intro slot hsome
    refine (Table.lookup_insert_eq _ _ _ _).trans ?_
    rw [if_neg]
    · exact hrep.vacated hsome
    · rintro rfl
      rw [hunset] at hsome
      cases hsome
  · rw [hgrew.entries] at hbacks hreg ⊢
    exact hrep.supplied.receipt hbacks fun _ _ => hreg
  · intro call flushed hmem
    rcases mem_wait hmem with hold | ⟨rfl, rfl⟩
    · exact .inl hold
    · refine .inr ⟨⟨hbear.mono hgrew.entries_subset, hknown⟩, fun proposal hmem => ?_⟩
      exact hreg proposal (Summary.Shows.proposals_subset ⟨rfl, rfl, rfl⟩ hmem)

/-- An installation keeps the stock when a running compaction spares the decided bytes. -/
theorem Stocked.install {decision : Decision} {core : Core}
    (hfloor : replica.core.floor < decision.slot)
    (hunset : replica.core.decided.lookup decision.slot = none)
    (hspares : replica.Spares decision.proposal.hash)
    (hgo : (replica.core.installDecision codec decision (encodeCertificate decision.configID
      decision)).Advances core) : Stocked { replica with core } := by
  obtain ⟨_, _, _, _, _, _, _, rfl⟩ := hgo
  have hdata : ∀ {hash}, (replica.core.values.lookup hash).isSome → ((replica.core.values.insert
      decision.proposal.hash decision.proposal.value).lookup hash).isSome := by
    intro hash hsome
    rw [Table.lookup_insert_eq]
    split
    · rfl
    · exact hsome
  refine ⟨?_, ?_, ?_, ?_, ?_, hrep.supplied, hrep.suppliedSynced, ?_, hrep.keeping, ?_⟩
  · intro value decided hmem hget
    rcases Table.of_lookup_insert hget with ⟨hslot, -⟩ | hold
    · -- A marker of the slot above the floor would have decided it before.
      have hsome := hrep.found hmem (hslot ▸ hfloor)
      rw [hslot, hunset] at hsome
      cases hsome
    · exact hrep.agree hmem hold
  · intro value hmem hslot
    refine (congrArg Option.isSome (Table.lookup_insert_eq _ _ _ _)).trans ?_
    split
    · rfl
    · exact hrep.found hmem hslot
  · intro slot decided hget
    rcases Table.of_lookup_insert hget with ⟨-, rfl⟩ | hold
    · exact congrArg Option.isSome (AList.lookup_insert _)
    · exact hdata (hrep.held hold)
  · intro slot hsome
    refine (Table.lookup_erase_eq _ _ _).trans ?_
    split
    · rfl
    · rename_i hne
      refine hrep.vacated (.trans ?_ hsome)
      exact (congrArg Option.isSome (AList.lookup_insert_ne hne)).symm
  · exact fun hfix => ⟨(hrep.durable hfix).1, hdata (hrep.durable hfix).2⟩
  · intro slot decided hget hbear
    rcases Table.of_lookup_insert hget with ⟨-, rfl⟩ | hold
    · exact fun running hgoing hopen _ => hspares running hgoing hopen hbear
    · exact hrep.decided hold hbear
  · exact fun hmem => (hrep.waiting hmem).mono (List.Subset.refl _) hdata rfl id

/-- A released call marks as durable only values whose bytes are synced. -/
theorem Stocked.durable_complete (hkept : replica.Kept codec)
    (hcall : call ∈ replica.pending) (hlet : released replica.core call = true)
    (hfix : hash ∈ (complete replica.core call.1).valueDurable) :
    Carries replica.core.wal.synced hash ∧ (replica.core.values.lookup hash).isSome := by
  obtain ⟨call, flushed⟩ := call
  have hstock := hrep.waiting hcall
  have hrests := hkept.pending hcall
  -- The decided value of a slot with a synced marker has synced bytes.
  have hmark : ∀ {slot}, Marked slot replica.core.wal.synced →
      (replica.core.decided.lookup slot).isSome → replica.core.decidedHash slot = hash →
        Carries replica.core.wal.synced hash ∧ (replica.core.values.lookup hash).isSome := by
    intro slot hmark hsome hhash
    obtain ⟨decided, hget⟩ := Option.isSome_iff_exists.mp hsome
    obtain rfl : decided.hash = hash := by simpa [Core.decidedHash, hget] using hhash
    exact ⟨hrep.carries_decided hkept.disciplined replica.core.wal.synced_subset
      hget hmark, hrep.held hget⟩
  cases call with
  | storeValue =>
    obtain rfl : flushed = true := hlet
    rcases Finset.mem_insert.mp hfix with rfl | hold
    · exact hstock
    · exact hrep.durable hold
  | record request summary completion =>
    cases completion with
    | ready | durable => exact hrep.durable hfix
    | syncValue =>
      obtain rfl : flushed = true := hlet
      rcases Finset.mem_insert.mp hfix with rfl | hold
      · exact hstock.1
      · exact hrep.durable hold
    | syncDecision =>
      obtain rfl : flushed = true := hlet
      rcases Finset.mem_insert.mp hfix with rfl | hold
      · exact hstock
      · exact hrep.durable hold
  | ensureDurable =>
    obtain rfl : flushed = true := hlet
    simp only [complete, Core.markDecisionsDurable_eq, Finset.mem_union, List.mem_toFinset,
      List.mem_map] at hfix
    rcases hfix with hold | ⟨slot, hslot, hhash⟩
    · exact hrep.durable hold
    · have htag : Marked slot replica.core.wal.synced := hrests slot hslot
      refine hmark htag ?_ hhash
      obtain ⟨value, hmem, rfl⟩ := htag
      exact hrep.found (replica.core.wal.synced_subset hmem) (hstock _ hslot)
  | prepare index prepared =>
    obtain rfl : flushed = true := hlet
    rcases complete_prepare replica.core index prepared with ⟨_, -, heq⟩ | ⟨_, _, -, -, -, heq⟩ <;>
      rw [heq] at hfix
    · exact hrep.durable hfix
    · simp only [Finset.mem_union, List.mem_toFinset, List.mem_map, Core.stillDecided,
        List.mem_filter, decide_eq_true_eq] at hfix
      rcases hfix with hold | ⟨slot, ⟨entry, ⟨hentry, hstill⟩, rfl⟩, hhash⟩
      · exact hrep.durable hold
      · refine hmark (hrests entry hentry) ?_ hhash
        obtain ⟨decided, hget, -⟩ := Option.map_eq_some_iff.mp hstill
        simp [hget]

theorem Stocked.finish (hkept : replica.Kept codec) {index : ℕ}
    (hcall : replica.pending[index]? = some call) (hlet : released replica.core call = true) :
    Stocked { replica with
      core := complete replica.core call.1, pending := replica.pending.eraseIdx index } := by
  have hfix : ∀ {hash}, hash ∈ (complete replica.core call.1).valueDurable →
      Carries replica.core.wal.synced hash ∧ (replica.core.values.lookup hash).isSome :=
    hrep.durable_complete hkept (List.mem_of_getElem? hcall) hlet
  obtain ⟨_, _, _, _, heq⟩ := complete_eq replica.core call.1
  rw [heq] at hfix ⊢
  exact ⟨hrep.agree, hrep.found, hrep.held, hrep.vacated, hfix,
    hrep.supplied, hrep.suppliedSynced, hrep.decided, hrep.keeping,
    fun hmem => (hrep.waiting (List.mem_of_mem_eraseIdx hmem)).mono (List.Subset.refl _) id rfl
      id⟩

end Stocked

variable {core : Core} {running : RunningCompaction}

section Kept

variable (hrep : replica.Stocked) (hkept : replica.Kept codec) {through : ℕ}
  {recoveryRoot : ValueHash}
include hrep hkept

/-- The fence retains what decisions and registers above the new base use. -/
theorem Stocked.carries_of_used
    (hbegin : replica.core.compactBegin codec through recoveryRoot = .ok (core, running))
    (hmem : hash ∈ running.retained.keys ∨ hash ∈ replica.core.loggedHashes through) :
    Carries (core.wal.commitCompaction running).entries hash := by
  obtain ⟨rfl, -, -, -, -, -, hbase, -⟩ := Core.compactBegin_eq_ok hbegin
  rcases hmem with hstay | hlogged
  · exact WAL.carries_retained hstay
  · simp only [Core.loggedHashes, List.mem_map, List.mem_filter, decide_eq_true_eq] at hlogged
    obtain ⟨⟨slot, decided⟩, ⟨hentry, hslot, hlogged⟩, rfl⟩ := hlogged
    -- The marker of a logged decision stands above the base and is not rewritten.
    obtain ⟨value, htag, rfl⟩ := hkept.logged hlogged
    rw [hrep.agree htag (AList.mem_lookup_iff.mpr hentry)]
    refine carries_of_marker ?_ (hkept.disciplined.markers htag)
    rw [WAL.entries_commitCompaction]
    refine WAL.mem_commitCompaction_of_above ?_ rfl (hbase ▸ hslot)
    rwa [WAL.entries_sync]

/-- A compaction may begin when it retains what the receipts of decided slots without
a marker name: such a decision may be lost, and the register then comes back. -/
theorem Stocked.begin (hbar : replica.barrier = true)
    (hbegin : replica.core.compactBegin codec through recoveryRoot = .ok (core, running))
    (hslips : ∀ slot ∈ replica.core.decided.keys, through < slot → slot ∉ replica.core.logged →
      ∀ register ∈ lastReceipt slot replica.core.wal.entries,
      ∀ proposal ∈ register.proposals, proposal.hash ∈ replica.core.usedHashesAbove through) :
    Stocked { replica with core, compaction := some running } := by
  have hbear : ∀ {hash}, hash ∈ running.retained.keys ∨
      hash ∈ replica.core.loggedHashes through →
        Carries (core.wal.commitCompaction running).entries hash :=
    hrep.carries_of_used hkept hbegin
  obtain ⟨rfl, hfloor, hstay, -, -, -, hbase, -⟩ := Core.compactBegin_eq_ok hbegin
  have hused : ∀ {hash}, hash ∈ replica.core.usedHashesAbove through →
      Carries (replica.core.wal.sync.commitCompaction running).entries hash :=
    fun hused => hbear (Core.mem_kept_of_used hstay hused)
  have hgave : ∀ slot register, replica.core.floor < slot →
      ¬ Marked slot replica.core.wal.entries →
      lastReceipt slot replica.core.wal.entries = some register →
      ∀ proposal ∈ register.proposals, through < slot →
        Carries (replica.core.wal.sync.commitCompaction running).entries proposal.hash := by
    intro slot register hslot hbare hlast proposal hmem habove
    cases hdec : replica.core.decided.lookup slot with
    | none =>
      refine hused (Core.mem_usedHashesAbove.mpr (.inr ?_))
      exact ⟨slot, register, (hkept.current hslot hdec).trans hlast, habove, proposal, hmem, rfl⟩
    | some decided =>
      refine hused (hslips slot ?_ habove ?_ register hlast proposal hmem)
      · exact (Table.mem_keys_iff _ _).mpr ⟨decided, hdec⟩
      · exact fun hlogged => hbare (hkept.logged hlogged)
  refine ⟨?_, ?_, hrep.held, hrep.vacated, ?_, ?_, ?_, ?_, ?_, ?_⟩
  · intro value decided hmem
    exact hrep.agree (by simpa using hmem)
  · intro value hmem
    exact hrep.found (by simpa using hmem)
  · intro hash hfix
    obtain ⟨hsync, hvalue⟩ := hrep.durable hfix
    exact ⟨hsync.mono replica.core.wal.synced_subset, hvalue⟩
  · intro slot register hslot hbare hlast proposal hmem
    rw [WAL.entries_sync] at hbare hlast ⊢
    refine ⟨(hrep.supplied slot register hslot hbare hlast proposal hmem).1, ?_⟩
    rintro _ ⟨⟩ - habove
    exact hgave slot register hslot hbare hlast proposal hmem (hbase ▸ habove)
  · exact hrep.supplied.mono fun hbacks => hbacks.1
  · intro slot decided hget _
    rintro _ ⟨⟩ - habove
    exact hused (Core.mem_usedHashesAbove.mpr (.inl ⟨slot, decided, hget, hbase ▸ habove, rfl⟩))
  · rintro _ ⟨⟩ -
    refine ⟨_, rfl, fun hash hmem => hbear ?_⟩
    simpa using hmem
  · intro call flushed hmem
    have hstock := hrep.waiting hmem
    have hfree : call.holdsSlot = false := holdsSlot_of_barrier hbar hmem
    cases call with
    | storeValue =>
      refine ⟨hstock.1.mono ?_, hstock.2⟩
      cases flushed with
      | true => exact replica.core.wal.synced_subset
      | false => simp
    | record | ensureDurable => cases hfree
    | prepare => trivial

/-- The switch keeps the stock when the values that wait for their sync are in use. -/
theorem Stocked.commit (hgoing : replica.compaction = some running)
    (hbar : replica.barrier = true) (hopen : running.committed = false)
    (hsave : replica.core.compactCommit codec running = .ok core)
    (hstoring : ∀ call ∈ replica.pending, ∀ hash ∈ call.1.stored,
      hash ∈ replica.core.usedHashesAbove running.base.closedThrough) :
    Stocked { replica with core, compaction := some { running with committed := true } } := by
  obtain ⟨hfloor, verifier, rfl⟩ := Core.compactCommit_eq_ok hsave
  have hrule := hkept.disciplined
  have hgave : Supplied running.base.closedThrough
      (replica.core.wal.commitCompaction running).entries
      fun _ => Carries (replica.core.wal.commitCompaction running).entries := by
    intro slot register habove hbare hlast proposal hmem
    refine (hrep.supplied slot register (hfloor.trans habove) ?_ ?_ proposal hmem).2
      running hgoing hopen habove
    · rintro ⟨value, hmem, rfl⟩
      refine hbare ⟨value, ?_, rfl⟩
      rw [WAL.entries_commitCompaction]
      exact WAL.mem_commitCompaction_of_above hmem rfl habove
    · exact (congrArg List.getLast? (WAL.registers_commitCompaction habove)).symm.trans hlast
  -- Every hash still in use is one of a decision or of a register above the base.
  have hused : ∀ {hash}, hash ∈ replica.core.usedHashesAbove running.base.closedThrough →
      Carries replica.core.wal.entries hash →
        Carries (replica.core.wal.commitCompaction running).entries hash := by
    intro hash hmem hbear
    rcases Core.mem_usedHashesAbove.mp hmem with ⟨slot, decided, hget, habove, rfl⟩ |
        ⟨slot, register, hget, habove, proposal, hprop, rfl⟩
    · exact hrep.decided hget hbear running hgoing hopen habove
    · have hunset : replica.core.decided.lookup slot = none := by
        by_contra hsome
        have hnone := hrep.vacated (Option.isSome_iff_ne_none.mpr hsome)
        rw [hget] at hnone
        cases hnone
      refine (hrep.backs_recorder hkept (hfloor.trans habove) hunset ?_).2
        running hgoing hopen habove
      rw [Core.recorder, hget]
      exact hprop
  have hdata : ∀ {hash}, hash ∈ replica.core.usedHashesAbove running.base.closedThrough →
      (replica.core.values.lookup hash).isSome → ((replica.core.values.restrict fun hash =>
        (replica.core.usedHashesAbove running.base.closedThrough).contains hash).lookup
          hash).isSome := by
    intro hash hmem hsome
    rw [Table.lookup_restrict, if_pos (List.contains_iff_mem.mpr hmem)]
    exact hsome
  refine ⟨?_, ?_, ?_, ?_, ?_, ?_, ?_, ?_, ?_, ?_⟩
  · intro value decided hmem hget
    exact hrep.agree (mem_of_commitCompaction hmem (by simp) rfl)
      (Table.lookup_restrict_some.mp hget).1
  · intro value hmem habove
    obtain ⟨decided, hget⟩ := Option.isSome_iff_exists.mp
      (hrep.found (mem_of_commitCompaction hmem (by simp) rfl) (hfloor.trans habove))
    exact Option.isSome_iff_exists.mpr
      ⟨decided, Table.lookup_restrict_some.mpr ⟨hget, decide_eq_true habove⟩⟩
  · intro slot decided hget
    obtain ⟨hget, habove⟩ := Table.lookup_restrict_some.mp hget
    refine hdata (Core.mem_usedHashesAbove.mpr (.inl ?_)) (hrep.held hget)
    exact ⟨slot, decided, hget, of_decide_eq_true habove, rfl⟩
  · intro slot hsome
    obtain ⟨decided, hget⟩ := Option.isSome_iff_exists.mp hsome
    have hold := (Table.lookup_restrict_some.mp hget).1
    have hnone := hrep.vacated (Option.isSome_iff_exists.mpr ⟨decided, hold⟩)
    refine Option.eq_none_iff_forall_ne_some.mpr fun register hreg => ?_
    have hreg := (Table.lookup_restrict_some.mp hreg).1
    rw [hnone] at hreg
    cases hreg
  · intro hash hfix
    obtain ⟨hfix, hkeep⟩ := Finset.mem_filter.mp hfix
    obtain ⟨hsync, hvalue⟩ := hrep.durable hfix
    have hmem : hash ∈ replica.core.usedHashesAbove running.base.closedThrough := by
      rcases hkeep with hcontains | hnone
      · exact List.contains_iff_mem.mp hcontains
      · -- A durable value is in memory, so nothing unused stays marked.
        have hget : replica.core.values.lookup hash = none := hnone
        rw [hget] at hvalue
        cases hvalue
    refine ⟨?_, hdata hmem hvalue⟩
    have hbear := hused hmem (hsync.mono replica.core.wal.synced_subset)
    rwa [WAL.entries_commitCompaction] at hbear
  · refine hgave.mono fun hbear => ⟨hbear, ?_⟩
    rintro _ ⟨⟩ ⟨⟩
  · rw [WAL.entries_commitCompaction] at hgave
    exact hgave
  · intro slot decided _ _
    rintro _ ⟨⟩ ⟨⟩
  · rintro _ ⟨⟩ ⟨⟩
  · intro call flushed hmem
    have hfree : call.holdsSlot = false := holdsSlot_of_barrier hbar hmem
    have honly := hkept.exclusive (by simp [hgoing]) hmem
    cases call with
    | storeValue hash =>
      have hmem' := hstoring _ hmem hash rfl
      obtain ⟨hbear, hvalue⟩ := hrep.waiting hmem
      refine ⟨?_, hdata hmem' hvalue⟩
      have hbear' : Carries replica.core.wal.entries hash := by
        refine hbear.mono ?_
        cases flushed with
        | true => exact replica.core.wal.synced_subset
        | false => exact List.Subset.refl _
      have hafter := hused hmem' hbear'
      rw [WAL.entries_commitCompaction] at hafter
      cases flushed with
      | true => exact hafter
      | false => exact hafter.mono (WAL.synced_subset _)
    | record | ensureDurable => cases hfree
    | prepare => cases honly

/-- A restart finds exactly what the synced log carries. -/
theorem Stocked.crash (hreopen : replica.core.reopen codec = .ok core) : (opened core).Stocked := by
  have hrule := hkept.disciplined
  have hmend := Core.reopen_restored hrule.headed.append_left hreopen
  obtain ⟨hlist, added, hadded, hlog⟩ := Core.reopen_log hreopen
  have hsub := Core.synced_subset_reopen hreopen
  have htag : ∀ {value}, .decide value ∈ core.wal.entries →
      .decide value ∈ replica.core.wal.synced :=
    fun hmem => (Core.mem_reopen hreopen hmem).resolve_right (by simp)
  have hfound : ∀ {value}, .decide value ∈ core.wal.entries →
      ∃ decided, core.decided.lookup value.slot = some decided ∧ decided.hash = value.hash := by
    intro value hmem
    have hfiled := hrule.markers (replica.core.wal.synced_subset (htag hmem))
    obtain ⟨decided, hget, hhash⟩ := hmend.decided_of_mem (htag hmem)
    rw [hfiled.certified_slot] at hget
    exact ⟨decided, hget, hhash.trans hfiled.certified_hash⟩
  have hgave : Supplied core.floor core.wal.synced fun _ => Carries core.wal.synced := by
    intro slot register habove hbare hlast proposal hmem
    have hplain : ∀ entry ∈ added, ∀ slot, entry.register slot = none := by
      intro entry hentry _
      rw [hadded entry hentry]
      rfl
    have hadd := hrep.suppliedSynced.append hplain fun hbear => hbear.mono hsub
    rw [← hlog] at hadd
    exact hadd slot register ((hkept.floor_le_reopen hreopen).trans_lt habove) hbare hlast
      proposal hmem
  refine ⟨?_, ?_, ?_, hmend.register_of_decided, ?_, ?_, hgave, ?_,
    fun hgoing => (by cases hgoing), fun hmem => (by cases hmem)⟩
  · intro value decided hmem hget
    obtain ⟨found, hfound, hhash⟩ := hfound hmem
    cases hfound.symm.trans hget
    exact hhash
  · intro value hmem _
    obtain ⟨found, hfound, -⟩ := hfound hmem
    exact Option.isSome_iff_exists.mpr ⟨found, hfound⟩
  · intro slot decided hget
    obtain ⟨value, hmem, -, rfl⟩ := hmend.decided_source hget
    exact hmend.value_of_carries ⟨_, hmem, rfl⟩
  · intro hash hfix
    have hbear := hmend.carries_of_durable hfix
    exact ⟨hbear.mono hsub, hmend.value_of_carries hbear⟩
  · change Supplied core.floor core.wal.entries ((opened core).Backs core.wal.entries)
    rw [hlist]
    exact hgave.mono fun hbear => ⟨hbear, fun _ hgoing => by cases hgoing⟩
  · intro slot decided _ _ running hgoing
    cases hgoing

/-- The marker of a known decision carries its bytes, old or new. -/
theorem Stocked.carries_logDecision {slot : ℕ} {decided : DecidedValue}
    (hget : replica.core.decided.lookup slot = some decided) :
    Carries (replica.core.logDecision decided).wal.entries decided.hash := by
  have hfiled := hkept.disciplined.filed hget
  unfold Core.logDecision
  split
  · rename_i hlogged
    rw [hfiled.slot_eq] at hlogged
    exact hrep.carries_decided hkept.disciplined (List.Subset.refl _) hget
      (hkept.logged hlogged)
  · rw [WAL.entries_append, carries_append_iff]
    exact .inr ⟨_, List.mem_singleton_self _, congrArg some hfiled.certified_hash⟩

/-- The answer of a record keeps the stock. -/
theorem Stocked.answer {request : RecordRequest} {eligible : Bool} {summary : Summary}
    {completion : Completion}
    (hjot : replica.core.recordApply codec request eligible = .ok (core, summary, completion))
    (hsafe : replica.core.decided.lookup request.slot = none →
      Carries replica.core.wal.entries request.proposal.hash ∧
        replica.Spares request.proposal.hash) :
    Stocked { replica with
      core, pending := replica.wait (.record request summary completion) } := by
  obtain ⟨hguard, hsay⟩ := Core.recordApply_cases hjot
  rcases hsay with ⟨decided, hdec, hsay⟩ | ⟨hnone, hmeet, -, hsay⟩
  · obtain ⟨marks, hhold⟩ := (Core.answerDecided_spec hdec hsay).1.stores
    refine hrep.stores hkept.disciplined hhold rfl fun hmem => ?_
    rcases mem_wait hmem with hold | ⟨rfl, rfl⟩
    · exact .inl hold
    · -- Only the call that waits for its marker owes anything.
      refine .inr ?_
      unfold Core.answerDecided at hsay
      split at hsay
      · cases hsay
        trivial
      · split at hsay
        · cases hsay
          trivial
        · cases hsay
          exact ⟨hrep.carries_logDecision hkept hdec, hhold.values (hrep.held hdec)⟩
  · obtain ⟨hbear, hspares⟩ := hsafe hnone
    cases hsay
    exact hrep.record hkept (Core.recordGuard_floor_lt hguard) hnone
      (Core.checkpointEligibility_known hmeet) hbear hspares

end Kept

end Replica

theorem Core.floor_lt_of_mem_ensureDurable {codec : Codec} {core next : Core} {slot : ℕ}
    {slots : List ℕ} (hadd : core.ensureDurableAppend codec slot = (next, .ok (some slots)))
    {member : ℕ} (hmem : member ∈ slots) : core.floor < member := by
  unfold ensureDurableAppend at hadd
  split at hadd
  · cases hadd
  split at hadd
  · cases hadd
  rename_i hfloor
  split at hadd
  · cases hadd
  split at hadd
  · cases hadd
  split at hadd
  · cases hadd
  dsimp only at hadd
  split at hadd
  · cases hadd
  split at hadd
  · cases hadd
  · cases hadd
    simp only [slotRange, List.mem_map] at hmem
    obtain ⟨offset, -, rfl⟩ := hmem
    split <;> omega

/-- A recorder, and the answers its record calls have returned. -/
structure Recording where
  replica : Replica
  returned : List (RecordRequest × Summary)

namespace Recording

/-- A section of the recorder. What was returned once stays returned, also over a crash. -/
def step (codec : Codec) (recording : Recording) (action : Action) : Option Recording := do
  let replica ← recording.replica.step codec action
  some ⟨replica, recording.returned ++ World.newReplies recording.replica action⟩

def run (codec : Codec) (recording : Recording) (actions : List Action) : Option Recording :=
  runFrom (step codec) recording actions

/-- What has to be in the log before a section. A stored or offered value that is in
memory must be in the log, and a running compaction must not take it, or the bytes of
an installed decision, out of the log. A compaction begins only when what the answers
and the receipts of unlogged slots above its base name is still in use there, and it
switches only when the stored values that wait for their sync are in use as well. -/
def Safe (recording : Recording) : Action → Prop
  | .storeValue hash _ => (recording.replica.core.values.lookup hash).isSome →
      Carries recording.replica.core.wal.entries hash
  | .record request _ => recording.replica.core.decided.lookup request.slot = none →
      Carries recording.replica.core.wal.entries request.proposal.hash ∧
        recording.replica.Spares request.proposal.hash
  | .install decision _ => recording.replica.Spares decision.proposal.hash
  | .compactBegin through _ =>
    (∀ slot ∈ recording.replica.core.decided.keys, through < slot →
      slot ∉ recording.replica.core.logged →
        ∀ register ∈ lastReceipt slot recording.replica.core.wal.entries,
          ∀ proposal ∈ register.proposals,
            proposal.hash ∈ recording.replica.core.usedHashesAbove through) ∧
      ∀ answer ∈ recording.returned, through < answer.1.slot →
        answer.1.slot ∉ recording.replica.core.logged →
          ∀ proposal ∈ answer.2.proposals,
            proposal.hash ∈ recording.replica.core.usedHashesAbove through
  | .compactCommit => ∀ running ∈ recording.replica.compaction,
      ∀ call ∈ recording.replica.pending, ∀ hash ∈ call.1.stored,
        hash ∈ recording.replica.core.usedHashesAbove running.base.closedThrough
  | _ => True

instance (replica : Replica) (hash : ValueHash) : Decidable (replica.Spares hash) :=
  inferInstanceAs (Decidable (∀ running ∈ replica.compaction, _))

instance (recording : Recording) (action : Action) : Decidable (recording.Safe action) := by
  cases action <;> unfold Safe <;> infer_instance

variable {codec : Codec} {recording later : Recording} {action : Action} {next : Replica}

/-- Every safe section keeps the stock. -/
theorem stocked_performs (hrep : recording.replica.Stocked)
    (hkept : recording.replica.Kept codec) (hsafe : recording.Safe action)
    (hacts : recording.replica.Performs codec action next) : next.Stocked := by
  have hrule := hkept.disciplined
  have hsame : ∀ {next : Replica}, next.core = recording.replica.core →
      next.compaction = recording.replica.compaction →
      (∀ {call flushed}, (call, flushed) ∈ next.pending →
        (call, flushed) ∈ recording.replica.pending) → next.Stocked := by
    intro next hcore hpack hpend
    have hhold : recording.replica.core.Stores next.core [] := by
      rw [hcore]
      exact .refl _
    exact hrep.stores hrule hhold hpack fun hmem => .inl (hpend hmem)
  have hmarks : ∀ {core : Core}, recording.replica.core.Marks core →
      Replica.Stocked { recording.replica with core } := by
    intro core hmarks
    obtain ⟨marks, hhold⟩ := hmarks.stores
    exact hrep.stores hrule hhold rfl .inl
  cases hacts with
  | admitRequest | check => exact hsame rfl rfl id
  | cancel => exact hsame rfl rfl List.mem_of_mem_eraseIdx
  | stageValue hstage =>
    obtain ⟨-, hstage⟩ := Core.stageValue_eq_ok hstage
    obtain ⟨added, hhold, -⟩ := Core.stores_of_stage hstage
    exact hrep.stores hrule hhold rfl .inl
  | @storeValue hash value core hstage =>
    obtain ⟨-, hstage⟩ := Core.stageValue_eq_ok hstage
    obtain ⟨added, hhold, hvalue, hbear⟩ := Core.stores_of_stage hstage
    refine hrep.stores hrule hhold rfl fun hmem => ?_
    rcases Replica.mem_wait hmem with hold | ⟨rfl, rfl⟩
    · exact .inl hold
    · refine .inr ⟨hbear ?_, hvalue⟩
      -- Bytes that are in memory are in the log, and others are appended.
      cases hget : recording.replica.core.values.lookup hash with
      | none => exact .inr rfl
      | some => exact .inl (hsafe (by simp [hget]))
  | stage hin hstage =>
    rcases Core.recordStage_cases hstage with rfl | ⟨-, hstage⟩
    · exact hsame rfl rfl id
    · obtain ⟨added, hhold, -⟩ := Core.stores_of_stage hstage
      exact hrep.stores hrule hhold rfl .inl
  | record hin hjot => exact hrep.answer hkept hjot hsafe
  | @install decision configID hvet =>
    rcases Core.acceptInstall_cases codec recording.replica.core decision configID with
      hgo | ⟨hfloor, hnone, hgo⟩
    · exact hrep.stores hrule hgo.stores rfl .inl
    · have hfloor' : recording.replica.core.floor < ({ decision with configID } : Decision).slot :=
        hfloor
      exact { hrep.install hfloor' hnone hsafe hgo with }
  | logDecision hdec => exact hmarks (Core.logDecision_marks hdec)
  | @ensureDurable slot core slots hadd =>
    have hmark := Core.ensureDurableAppend_marks codec recording.replica.core slot
    rw [hadd] at hmark
    obtain ⟨marks, hhold⟩ := hmark.stores
    refine hrep.stores hrule hhold rfl fun hmem => ?_
    rcases Replica.mem_wait hmem with hold | ⟨rfl, rfl⟩
    · exact .inl hold
    · refine .inr fun member hseat => ?_
      change core.floor < member
      rw [hhold.floor]
      exact Core.floor_lt_of_mem_ensureDurable hadd hseat
  | @ensured slot core result hadd =>
    have hmark := Core.ensureDurableAppend_marks codec recording.replica.core slot
    rw [hadd] at hmark
    exact hmarks hmark
  | @prepare checkpoint payload eligible core prepared hidle hmade =>
    obtain ⟨_, ⟨marks, hdec, rfl⟩, -, rfl⟩ := Core.prepareAppend_eq_ok hmade
    refine @Replica.Stocked.stores _ _ _ (marks.map .decide ++ [.checkpointVerified checkpoint])
      hrep hrule ⟨⟨rfl, rfl, rfl, id, by simp, .inl rfl, ?_, .inl rfl⟩, rfl, ?_⟩ rfl fun hmem => ?_
    · exact fun hmem => hdec _ (by simpa using hmem)
    · simp [or_imp, forall_and, Entry.register]
    · rcases Replica.mem_wait hmem with hold | ⟨rfl, rfl⟩
      · exact .inl hold
      · exact .inr trivial
  | sync =>
    have hhold : recording.replica.core.Stores
        { recording.replica.core with wal := recording.replica.core.wal.sync } [] :=
      ⟨⟨rfl, rfl, rfl, id, by simp, .inr (by simp), by simp, .inl rfl⟩, rfl, by simp⟩
    refine hrep.stores hrule hhold rfl fun hmem => ?_
    obtain ⟨⟨call, flushed⟩, hcall, heq⟩ := List.mem_map.mp hmem
    cases heq
    refine .inr ((hrep.waiting hcall).mono ?_ id rfl fun hstays => ?_)
    · cases flushed with
      | true => exact recording.replica.core.wal.synced_subset
      | false => exact List.Subset.refl _
    · exact hstays.adds hrule hhold.entries rfl
  | finish hcall hlet => exact hrep.finish hkept hcall hlet
  | compactBegin hidle hbar hfree hbegin => exact hrep.begin hkept hbar hbegin hsafe.1
  | compactCommit hgoing hbar hfirst hsave =>
    exact hrep.commit hkept hgoing hbar hfirst hsave (hsafe _ hgoing)
  | compactFinish =>
    refine ⟨hrep.agree, hrep.found, hrep.held, hrep.vacated, hrep.durable,
      ?_, hrep.suppliedSynced, fun _ _ _ h => (by cases h), fun h => (by cases h),
      fun hmem => ?_⟩
    · exact hrep.supplied.mono fun hbacks => ⟨hbacks.1, fun _ h => by cases h⟩
    · exact (hrep.waiting hmem).mono (List.Subset.refl _) id rfl fun _ _ h => by cases h
  | crash hreopen => exact hrep.crash hkept hreopen

/-- The bytes behind an answer: the slot is closed, its decision is logged for good, or
the synced log carries all that the answer names. -/
def Honours (replica : Replica) (answer : RecordRequest × Summary) : Prop :=
  answer.1.slot ≤ replica.core.floor ∨ Marked answer.1.slot replica.core.wal.synced ∨
    ∀ proposal ∈ answer.2.proposals,
      replica.Backs replica.core.wal.synced answer.1.slot proposal.hash

variable {answer : RecordRequest × Summary}

theorem Honours.mono {replica : Replica}
    (hpays : Honours replica answer) (hfloor : replica.core.floor ≤ next.core.floor)
    (hsync : replica.core.wal.synced ⊆ next.core.wal.synced)
    (hstays : ∀ {hash}, replica.Survives answer.1.slot hash →
      next.Survives answer.1.slot hash) : Honours next answer := by
  rcases hpays with hle | hmark | hbacks
  · exact .inl (hle.trans hfloor)
  · exact .inr (.inl (hmark.mono hsync))
  · refine .inr (.inr fun proposal hmem => ?_)
    obtain ⟨hbear, hafter⟩ := hbacks proposal hmem
    exact ⟨hbear.mono hsync, hstays hafter⟩

/-- A finished record call hands out an answer whose bytes are synced. -/
theorem honours_returned (hrep : recording.replica.Stocked) (hkept : recording.replica.Kept codec)
    (hacts : recording.replica.Performs codec action next)
    (hnew : answer ∈ World.newReplies recording.replica action) :
    Honours recording.replica answer := by
  cases hacts with
  | @finish index call hcall hlet =>
    obtain ⟨call, flushed⟩ := call
    simp only [World.newReplies, hcall] at hnew
    have hmem := List.mem_of_getElem? hcall
    cases call with
    | record request summary completion =>
      obtain rfl : answer = (request, summary) := by simpa using hnew
      rcases hkept.upholds_of_released hmem hlet with hle | hmark | ⟨register, hreg, -⟩
      · exact .inl hle
      · exact .inr (.inl hmark)
      · cases completion with
        | syncValue =>
          obtain rfl : flushed = true := hlet
          exact .inr (.inr (hrep.waiting hmem).2)
        | ready | durable | syncDecision => cases hreg
    | storeValue | ensureDurable | prepare => cases hnew
  | _ => cases hnew

/-- Every safe section honours the answers that were honoured before it. -/
theorem honours_performs (hrep : recording.replica.Stocked)
    (hkept : recording.replica.Kept codec) (hsafe : recording.Safe action)
    (hacts : recording.replica.Performs codec action next) (hmem : answer ∈ recording.returned)
    (hpays : Honours recording.replica answer) : Honours next answer := by
  have hdid := hacts.changes
  have hadds : action ≠ .compactCommit → action ≠ .crash →
      next.compaction = recording.replica.compaction ∨ next.compaction = none →
        Honours next answer := by
    intro hsave hcrash hpack
    have hdid := hdid hsave hcrash
    obtain ⟨added, -, hlist, -⟩ := hdid.adds
    refine hpays.mono hdid.bounds_eq.2.1.ge hdid.adds.synced_subset fun hstays => ?_
    rcases hpack with hsame | hnone
    · exact hstays.adds hkept.disciplined hlist hsame
    · intro running hgoing
      rw [hnone] at hgoing
      cases hgoing
  cases hacts with
  | @compactBegin through recoveryRoot core running hidle hbar hfree hbegin =>
    have hbear : ∀ {hash}, hash ∈ running.retained.keys ∨
        hash ∈ recording.replica.core.loggedHashes through →
          Carries (core.wal.commitCompaction running).entries hash :=
      hrep.carries_of_used hkept hbegin
    obtain ⟨rfl, -, hstay, -, -, -, hbase, -⟩ := Core.compactBegin_eq_ok hbegin
    have hsub : recording.replica.core.wal.synced ⊆ recording.replica.core.wal.sync.synced :=
      recording.replica.core.wal.synced_subset
    rcases hpays with hle | hmark | hbacks
    · exact .inl hle
    · exact .inr (.inl (hmark.mono hsub))
    · by_cases hlogged : answer.1.slot ∈ recording.replica.core.logged
      · -- The sync of the fence covers the marker.
        exact .inr (.inl (hkept.logged hlogged))
      · refine .inr (.inr fun proposal hprop => ?_)
        refine ⟨(hbacks proposal hprop).1.mono hsub, ?_⟩
        rintro _ ⟨⟩ - habove
        rw [hbase] at habove
        refine hbear (Core.mem_kept_of_used hstay ?_)
        exact hsafe.2 answer hmem habove hlogged proposal hprop
  | @compactCommit running core hgoing hbar hfirst hsave =>
    obtain ⟨hfloor, verifier, rfl⟩ := Core.compactCommit_eq_ok hsave
    rcases Nat.lt_or_ge running.base.closedThrough answer.1.slot with habove | hle
    · rcases hpays with hle | ⟨value, htag, hslot⟩ | hbacks
      · exact absurd (hle.trans_lt (hfloor.trans habove)) (lt_irrefl _)
      · refine .inr (.inl ⟨value, ?_, hslot⟩)
        exact WAL.mem_commitCompaction_of_above
          (recording.replica.core.wal.synced_subset htag) rfl (habove.trans_eq hslot.symm)
      · refine .inr (.inr fun proposal hprop => ⟨?_, ?_⟩)
        · have hbear := (hbacks proposal hprop).2 running hgoing hfirst habove
          rwa [WAL.entries_commitCompaction] at hbear
        · rintro _ ⟨⟩ ⟨⟩
    · exact .inl hle
  | @crash core hreopen =>
    exact hpays.mono (hkept.floor_le_reopen hreopen) (Core.synced_subset_reopen hreopen)
      fun _ => nofun
  | compactFinish => exact hadds nofun nofun (.inr rfl)
  | _ => exact hadds nofun nofun (.inl rfl)

/-- What safe runs keep. -/
structure Supported (codec : Codec) (recording : Recording) : Prop where
  kept : recording.replica.Kept codec
  stocked : recording.replica.Stocked
  honoured : ∀ answer ∈ recording.returned, Honours recording.replica answer

theorem Supported.step (hjots : recording.Supported codec) (hsafe : recording.Safe action)
    (hstep : recording.step codec action = some later) : later.Supported codec := by
  obtain ⟨next, hnext, ⟨⟩⟩ := Option.bind_eq_some_iff.mp hstep
  have hacts := Replica.step_performs hnext
  refine ⟨hjots.kept.performs hacts, stocked_performs hjots.stocked hjots.kept hsafe hacts, ?_⟩
  intro answer hmem
  rcases List.mem_append.mp hmem with hold | hnew
  · exact honours_performs hjots.stocked hjots.kept hsafe hacts hold
      (hjots.honoured answer hold)
  · -- A finished call changes neither the log nor a running compaction.
    have hpays := honours_returned hjots.stocked hjots.kept hacts hnew
    cases hacts with
    | @finish index call hcall hlet =>
      obtain ⟨_, _, _, _, heq⟩ := Replica.complete_eq recording.replica.core call.1
      refine hpays.mono ?_ ?_ ?_
      · simp [heq]
      · simp [heq]
      · intro hash hstays running hgoing
        simp only [heq]
        exact hstays running hgoing
    | _ => cases hnew

/-- A recorder as it is first started. -/
def initial (options : CoreOptions) : Recording where
  replica := Replica.opened (newCore options ⟨[], []⟩)
  returned := []

theorem supported_initial (codec : Codec) (options : CoreOptions) :
    (initial options).Supported codec where
  kept := Replica.kept_newCore ..
  stocked :=
    { agree := nofun
      found := nofun
      held := nofun
      vacated := nofun
      durable := nofun
      supplied := nofun
      suppliedSynced := nofun
      decided := nofun
      keeping := nofun
      waiting := nofun }
  honoured := nofun

/-- Every value that counts as durable, and every proposal named in a returned answer
for an undecided slot above the floor, has its bytes in every replica opened from the
synced log. -/
def Available (codec : Codec) (recording : Recording) : Prop :=
  ∀ core, recording.replica.core.reopen codec = .ok core → ∀ hash,
    (hash ∈ recording.replica.core.valueDurable ∨
      ∃ answer ∈ recording.returned, recording.replica.core.floor < answer.1.slot ∧
        recording.replica.core.decided.lookup answer.1.slot = none ∧
        ∃ proposal ∈ answer.2.proposals, proposal.hash = hash) →
      ∃ value, core.values.lookup hash = some value ∧ codec.sha256 value = hash

theorem Supported.available (hjots : recording.Supported codec) : recording.Available codec := by
  intro core hreopen hash hnamed
  have hrule := hjots.kept.disciplined
  have hmend := Core.reopen_restored hrule.headed.append_left hreopen
  have hbear : Carries recording.replica.core.wal.synced hash := by
    rcases hnamed with hfix | ⟨answer, hmem, hfloor, hunset, proposal, hprop, rfl⟩
    · exact (hjots.stocked.durable hfix).1
    · rcases hjots.honoured answer hmem with hle | ⟨value, htag, hslot⟩ | hbacks
      · exact absurd hle (Nat.not_le.mpr hfloor)
      · have hfound := hjots.stocked.found
          (recording.replica.core.wal.synced_subset htag) (hfloor.trans_eq hslot.symm)
        rw [hslot, hunset] at hfound
        cases hfound
      · exact (hbacks proposal hprop).1
  obtain ⟨value, hvalue⟩ := Option.isSome_iff_exists.mp (hmend.value_of_carries hbear)
  exact ⟨value, hvalue, hmend.value_hash hvalue⟩

/-- In every run whose sections are safe, the bytes behind durable values and open
answers are never lost. -/
theorem values_available (codec : Codec) (options : CoreOptions) (actions : List Action)
    (recording : Recording) (hguarded : Guarded (step codec) Safe (initial options) actions)
    (hrun : (initial options).run codec actions = some recording) :
    recording.Available codec := by
  have hstep : ∀ {recording action later}, Supported codec recording → Safe recording action →
      step codec recording action = some later → Supported codec later :=
    fun hrecording hsafe hstep => hrecording.step hsafe hstep
  exact (hguarded.invariant hstep hrun (supported_initial ..)).available

/-- A decision arrives as a hint, and its bytes are stored again. -/
def storedHint : List Action :=
  [.check (World.leaderDecision [7]), .install (World.leaderDecision [7]) 1,
    .storeValue (digest [7]) [7], .sync, .finish 0]

/-- The stored value counts as durable, and a restart does not find it. -/
theorem values_lost : ∃ recording core,
    (initial (World.trio.member [66])).run (Codec.tabled []) storedHint = some recording ∧
      digest [7] ∈ recording.replica.core.valueDurable ∧
      recording.replica.core.reopen (Codec.tabled []) = .ok core ∧
      core.values.lookup (digest [7]) = none := by
  simp only [exists_and_left]
  decide +kernel

/-- A value is stored, and a recorder answers an offer of it by its hash alone. -/
def storedThenOffered : List Action :=
  let request := { World.leaderRequest [7] with
    proposal := (World.leaderRequest [7]).proposal.ref }
  [.storeValue (digest [7]) [7], .sync, .finish 0, .admitRequest request none, .stage request,
    .record request true, .sync, .finish 0]

theorem values_available_storedThenOffered : ∃ recording core,
    (initial (World.trio.member [66])).run (Codec.tabled []) storedThenOffered = some recording ∧
      recording.returned.length = 1 ∧
      recording.replica.core.reopen (Codec.tabled []) = .ok core ∧
      ∃ value, core.values.lookup (digest [7]) = some value ∧ digest value = digest [7] := by
  have hguarded : Guarded (step (Codec.tabled [])) Safe
      (initial (World.trio.member [66])) storedThenOffered := by
    decide +kernel
  obtain ⟨recording, hrun, hreturned, hdurable, core, hreopen, -⟩ : ∃ recording,
      (initial (World.trio.member [66])).run (Codec.tabled []) storedThenOffered =
          some recording ∧
        recording.returned.length = 1 ∧ digest [7] ∈ recording.replica.core.valueDurable ∧
        ∃ core, recording.replica.core.reopen (Codec.tabled []) = .ok core ∧ True := by
    decide +kernel
  refine ⟨recording, core, hrun, hreturned, hreopen, ?_⟩
  exact values_available (Codec.tabled []) (World.trio.member [66]) storedThenOffered recording
    hguarded hrun core hreopen (digest [7]) (.inl hdurable)

end Recording

end Rhiza.QuePaxa
