import Rhiza.QuePaxa.Replay

/-! # Log discipline

What holds of memory and log of a replica after any sections, restarts included:
stored decisions are filed under their own slot, a recovery base stands only at the
head of the log and does not exceed the floor, and a running compaction has the old
base before its fence.
-/

namespace Rhiza.QuePaxa

open Foundations

/-- The value is filed under the slot of its certificate, and its bytes have its hash. -/
structure DecidedValue.Filed (codec : Codec) (slot : ℕ) (value : DecidedValue) : Prop where
  slot_eq : value.slot = slot
  certified_slot : value.certified.slot = slot
  certified_hash : value.certified.proposal.hash = value.hash
  hash_eq : codec.sha256 value.value = value.hash

variable {codec : Codec} {slot : ℕ}

theorem DecidedValue.Filed.stored_eq {value : DecidedValue}
    (hfiled : value.Filed codec slot) : value.stored = value := by
  obtain ⟨hslot, hcert, hhash, -⟩ := hfiled
  cases value
  simp_all [DecidedValue.stored]

/-- A decision passes the checks only with the bytes of its hash. -/
theorem Core.acceptCheck_hash {core : Core} {decision : Decision} {configID : ℕ}
    (hcheck : core.acceptCheck codec decision = .ok configID) :
    codec.sha256 decision.proposal.value = decision.proposal.hash := by
  simp only [Core.acceptCheck, Core.validateDecisionAtFloor, Core.validateDecisionForRecovery,
    seq_eq_ok, require_eq_ok] at hcheck
  exact hcheck.1.2.1.2

namespace Replica

/-- The facts about memory and log that no section breaks. -/
structure Disciplined (codec : Codec) (replica : Replica) : Prop where
  accepted : ∀ {decision}, replica.Accepted decision →
    codec.sha256 decision.proposal.value = decision.proposal.hash
  filed : ∀ {slot decided}, replica.core.decided.lookup slot = some decided →
    decided.Filed codec slot
  markers : ∀ {value}, .decide value ∈ replica.core.wal.entries → value.Filed codec value.slot
  headed : Headed replica.core.wal.entries
  base_le : ∀ {base}, .checkpoint base ∈ replica.core.wal.entries →
    base.closedThrough ≤ replica.core.floor
  fenced : ∀ {running}, replica.compaction = some running → running.committed = false →
    running.fence ≤ replica.core.wal.entries.length ∧
      ∀ base, .checkpoint base ∉ replica.core.wal.entries.drop running.fence

variable {codec : Codec} {replica next : Replica} {action : Action} {core : Core}

/-- Filed values of a core after a change: those that were there, and an accepted one. -/
theorem Disciplined.filed_changes (hrep : replica.Disciplined codec)
    (hdid : replica.Changes codec core) {slot : ℕ}
    {decided : DecidedValue} (hget : core.decided.lookup slot = some decided) :
    decided.Filed codec slot := by
  rcases hdid.decided_cases with heq | ⟨decision, hyes, heq⟩ <;> rw [heq] at hget
  · exact hrep.filed hget
  · rcases Table.of_lookup_insert hget with ⟨rfl, rfl⟩ | hget
    · exact ⟨rfl, rfl, rfl, hrep.accepted hyes⟩
    · exact hrep.filed hget

/-- A change of the core keeps the discipline as long as the decisions that wait for
their installation have the hash of their bytes. -/
theorem Disciplined.changes (hrep : replica.Disciplined codec)
    (hdid : replica.Changes codec next.core)
    (hyes : ∀ {decision}, next.Accepted decision →
      codec.sha256 decision.proposal.value = decision.proposal.hash)
    (hgoing : ∀ {running}, next.compaction = some running → running.committed = false →
      replica.compaction = some running ∨ running.fence = next.core.wal.entries.length) :
    next.Disciplined codec := by
  obtain ⟨added, hadded, hlist, -⟩ := hdid.adds
  have hplain : ∀ base, .checkpoint base ∉ added := fun base hmem => by
    cases hadded _ hmem
  refine ⟨hyes, hrep.filed_changes hdid, ?_, ?_, ?_, ?_⟩
  · intro value hmem
    rw [hlist] at hmem
    rcases List.mem_append.mp hmem with hold | hnew
    · exact hrep.markers hold
    · cases hadded _ hnew with
      | decide hdec =>
        have hfiled := hrep.filed hdec
        exact hfiled.slot_eq.symm ▸ hfiled
  · rw [hlist]
    exact Headed.append hrep.headed hplain
  · intro base hmem
    rw [hlist] at hmem
    rw [hdid.bounds_eq.2.1]
    rcases List.mem_append.mp hmem with hmem | hmem
    · exact hrep.base_le hmem
    · exact absurd hmem (hplain base)
  · intro running hgoing' hopen
    rcases hgoing hgoing' hopen with hold | hfence
    · obtain ⟨hfence, hbases⟩ := hrep.fenced hold hopen
      rw [hlist]
      refine ⟨hfence.trans (by simp), fun base hmem => ?_⟩
      rw [List.drop_append_of_le_length hfence] at hmem
      rcases List.mem_append.mp hmem with hmem | hmem
      · exact hbases base hmem
      · exact hplain base hmem
    · rw [hfence]
      exact ⟨le_rfl, by simp⟩

variable {running : RunningCompaction} {wal : WAL}

/-- The entries after the switch of a compaction. -/
theorem mem_commitCompaction {entry : Entry}
    (hmem : entry ∈ (wal.commitCompaction running).entries) :
    entry = .checkpoint running.base ∨
      (∃ hash value, entry = .proposal hash value) ∨
      (entry ∈ wal.entries ∧ (running.base.closedThrough < entry.slot ∨
        entry ∈ wal.entries.drop running.fence)) := by
  simp only [WAL.commitCompaction, WAL.entries, compactedEntries, List.append_nil,
    List.mem_append, List.mem_cons, List.mem_map, List.mem_filter] at hmem
  rcases hmem with ((rfl | ⟨retained, -, rfl⟩) | ⟨hmem, hkeep⟩) | hmem
  · exact .inl rfl
  · exact .inr (.inl ⟨_, _, rfl⟩)
  · rw [Bool.and_eq_true, decide_eq_true_eq] at hkeep
    exact .inr (.inr ⟨List.mem_of_mem_take hmem, .inl hkeep.2⟩)
  · exact .inr (.inr ⟨List.mem_of_mem_drop hmem, .inr hmem⟩)

/-- The switch adds nothing but the base and proposals. -/
theorem mem_of_commitCompaction {entry : Entry}
    (hmem : entry ∈ (wal.commitCompaction running).entries)
    (hbase : entry ≠ .checkpoint running.base) (hprop : entry.isProposal = false) :
    entry ∈ wal.entries := by
  rcases mem_commitCompaction hmem with heq | ⟨_, _, rfl⟩ | ⟨hmem, -⟩
  · exact absurd heq hbase
  · cases hprop
  · exact hmem

/-- The switch to a base above the floor keeps the discipline. -/
theorem Disciplined.rebase (hrep : replica.Disciplined codec)
    (verifier : Core) (preparedCheckpoints : Table ℕ ValueHash)
    {compaction : Option RunningCompaction}
    (hfloor : replica.core.floor < running.base.closedThrough)
    (hbases : ∀ base, .checkpoint base ∉ replica.core.wal.entries.drop running.fence)
    (hshut : ∀ running ∈ compaction, running.committed = true) :
    Disciplined codec { replica with
      core := { (Core.installVerifiedBase
        { replica.core with wal := replica.core.wal.commitCompaction running } running.base
        verifier).pruneSlotAllocator with preparedCheckpoints }
      compaction } := by
  -- The old base is below the new one, so the rewrite dropped it.
  have hold : ∀ {base}, .checkpoint base ∈ replica.core.wal.entries →
      ¬ running.base.closedThrough < base.closedThrough := by
    intro base hmem
    have := hrep.base_le hmem
    omega
  refine ⟨hrep.accepted, ?_, ?_, ?_, ?_, ?_⟩
  · intro slot decided hget
    exact hrep.filed (Table.lookup_restrict_some.mp hget).1
  · exact fun hmem => hrep.markers (mem_of_commitCompaction hmem (by simp) rfl)
  · intro base hmem
    simp only [WAL.commitCompaction, WAL.entries, compactedEntries, List.append_nil,
      List.cons_append, List.tail_cons, List.mem_append, List.mem_map, List.mem_filter,
      Core.pruneSlotAllocator, Core.installVerifiedBase, Core.installBase,
      Core.dropUnusedValues] at hmem
    rcases hmem with (⟨retained, -, heq⟩ | ⟨hmem, hkeep⟩) | hmem
    · cases heq
    · rw [Bool.and_eq_true, decide_eq_true_eq] at hkeep
      exact hold (List.mem_of_mem_take hmem) hkeep.2
    · exact hbases base hmem
  · intro base hmem
    rcases mem_commitCompaction hmem with heq | ⟨_, _, heq⟩ | ⟨hmem, hlt | hdrop⟩
    · cases heq
      exact le_rfl
    · cases heq
    · exact absurd hlt (hold hmem)
    · exact absurd hdrop (hbases base)
  · intro running hgoing hfalse
    rw [hshut running hgoing] at hfalse
    cases hfalse

theorem Disciplined.commit (hrep : replica.Disciplined codec)
    (hgoing : replica.compaction = some running) (hopen : running.committed = false)
    (hsave : replica.core.compactCommit codec running = .ok core) :
    Disciplined codec
      { replica with core, compaction := some { running with committed := true } } := by
  obtain ⟨hfloor, verifier, rfl⟩ := Core.compactCommit_eq_ok hsave
  apply hrep.rebase verifier _ hfloor (hrep.fenced hgoing hopen).2
  rintro _ ⟨⟩
  rfl

theorem Disciplined.crash (hrep : replica.Disciplined codec)
    (hreopen : replica.core.reopen codec = .ok core) : (opened core).Disciplined codec := by
  have hsub := replica.core.wal.synced_subset
  have hhead : Headed replica.core.wal.synced := hrep.headed.append_left
  have hmend := Core.reopen_restored hhead hreopen
  refine ⟨fun hyes => by simp [Accepted, opened] at hyes, ?_, ?_, ?_, ?_,
    fun hgoing => by cases hgoing⟩
  · intro slot decided hget
    obtain ⟨value, hmem, rfl, rfl⟩ := hmend.decided_source hget
    have hfiled := hrep.markers (hsub hmem)
    rw [hfiled.stored_eq, hfiled.certified_slot]
    exact hfiled
  · intro value hmem
    rcases Core.mem_reopen hreopen hmem with hmem | heq
    · exact hrep.markers (hsub hmem)
    · cases heq
  · change Headed core.wal.entries
    obtain ⟨hlist, added, hadded, hlog⟩ := Core.reopen_log hreopen
    rw [hlist, hlog]
    exact Headed.append hhead fun base hmem => by cases hadded _ hmem
  · intro base hmem
    rcases Core.mem_reopen hreopen hmem with hmem | heq
    · exact (hmend.floor_of_base hmem).ge
    · cases heq

theorem disciplined_newCore (codec : Codec) (options : CoreOptions) :
    (opened (newCore options ⟨[], []⟩)).Disciplined codec := by
  refine ⟨?_, nofun, nofun, nofun, nofun, nofun⟩
  rintro _ ⟨_, hmem, -⟩
  cases hmem

/-- Every section keeps the discipline. -/
theorem Disciplined.performs (hrep : replica.Disciplined codec)
    (hacts : replica.Performs codec action next) : next.Disciplined codec := by
  have hdid := hacts.changes
  cases hacts with
  | crash hreopen => exact hrep.crash hreopen
  | compactCommit hgoing hbar hfirst hsave =>
    exact hrep.commit hgoing hfirst hsave
  | @check decision configID hcheck =>
    refine hrep.changes (hdid nofun nofun) ?_ fun hgoing _ => .inl hgoing
    rintro _ ⟨entry, hmem, rfl⟩
    rcases List.mem_cons.mp hmem with rfl | hmem
    · have hhash := Core.acceptCheck_hash hcheck
      exact hhash
    · exact hrep.accepted ⟨entry, hmem, rfl⟩
  | install =>
    refine hrep.changes (hdid nofun nofun) ?_ fun hgoing _ => .inl hgoing
    rintro _ ⟨entry, hmem, rfl⟩
    exact hrep.accepted ⟨entry, List.mem_of_mem_erase hmem, rfl⟩
  | compactBegin hidle hbar hfree hbegin =>
    refine hrep.changes (hdid nofun nofun) hrep.accepted fun hgoing _ => ?_
    obtain ⟨rfl, -, -, -, -, -, -, -, hfence⟩ := Core.compactBegin_eq_ok hbegin
    cases hgoing
    exact .inr (by simpa using hfence)
  | compactFinish =>
    exact hrep.changes (hdid nofun nofun) hrep.accepted fun hgoing => by
      cases hgoing
  | _ =>
    exact hrep.changes (hdid nofun nofun) hrep.accepted fun hgoing _ =>
      .inl hgoing

end Replica

/-- The entry tells a restarted replica of the slot or of a later one. -/
def Entry.covers (slot : ℕ) : Entry → Bool
  | .receipt slot' _ _ _ => slot ≤ slot'
  | .decide value => slot ≤ value.slot
  | .checkpoint base => slot ≤ base.closedThrough
  | _ => false

/-- What is synced tells a restarted replica of the slot or of a later one. -/
def WAL.Covers (wal : WAL) (slot : ℕ) : Prop := ∃ entry ∈ wal.synced, entry.covers slot = true

instance (wal : WAL) (slot : ℕ) : Decidable (wal.Covers slot) :=
  inferInstanceAs (Decidable (∃ entry ∈ wal.synced, _))

theorem le_foldl_max {bound start : ℕ} {slots : List ℕ}
    (hbound : bound ≤ start ∨ bound ∈ slots) : bound ≤ slots.foldl max start := by
  induction slots generalizing start with
  | nil => simpa using hbound
  | cons slot rest ih =>
    apply ih
    rcases hbound with hstart | hmem
    · exact .inl (hstart.trans (le_max_left _ _))
    · rcases List.mem_cons.mp hmem with rfl | hrest
      · exact .inl (le_max_right _ _)
      · exact .inr hrest

namespace Core

variable (core : Core) {slot : ℕ}

theorem floor_le_recorderTip : core.floor ≤ core.recorderTip :=
  le_foldl_max (.inl (le_max_left _ _))

theorem decided_le_recorderTip (hdec : (core.decided.lookup slot).isSome) :
    slot ≤ core.recorderTip := by
  refine le_foldl_max (.inr (List.mem_append_left _ ?_))
  exact (Table.mem_keys_iff _ _).mpr (Option.isSome_iff_exists.mp hdec)

theorem recorder_le_recorderTip (hpeer : (core.recorders.lookup slot).isSome) :
    slot ≤ core.recorderTip := by
  refine le_foldl_max (.inr (List.mem_append_right _ ?_))
  exact (Table.mem_keys_iff _ _).mpr (Option.isSome_iff_exists.mp hpeer)

end Core

theorem lastReceipt_isSome {hash : ValueHash} {state : ISR} {reconfiguration : Bool}
    {entries : List Entry} (hmem : .receipt slot hash state reconfiguration ∈ entries) :
    (lastReceipt slot entries).isSome := by
  have hmap : state ∈ entries.filterMap (Entry.register slot) :=
    List.mem_filterMap.mpr ⟨_, hmem, Entry.register_receipt_self ..⟩
  rw [lastReceipt, List.getLast?_isSome]
  exact List.ne_nil_of_mem hmap

namespace Replica

variable {codec : Codec} {replica next : Replica} {action : Action} {core : Core} {slot : ℕ}

/-- A restarted replica knows of what its synced log covers. -/
theorem Disciplined.le_recorderTip (hrep : replica.Disciplined codec)
    (hreopen : replica.core.reopen codec = .ok core)
    (hlids : replica.core.wal.Covers slot) : slot ≤ core.recorderTip := by
  have hmend := Core.reopen_restored hrep.headed.append_left hreopen
  obtain ⟨entry, hmem, hentry⟩ := hlids
  cases entry with
  | receipt slot' hash state reconfiguration =>
    refine (of_decide_eq_true hentry).trans ?_
    by_cases hzero : slot' = 0
    · omega
    · cases hdec : core.decided.lookup slot' with
      | some => exact core.decided_le_recorderTip (by simp [hdec])
      | none =>
        apply core.recorder_le_recorderTip
        rw [hmend.register_of_undecided hzero hdec]
        exact lastReceipt_isSome hmem
  | decide =>
    refine (of_decide_eq_true hentry).trans ?_
    obtain ⟨decided, hget, -⟩ := hmend.decided_of_mem hmem
    have hfiled := hrep.markers (replica.core.wal.synced_subset hmem)
    rw [hfiled.certified_slot] at hget
    exact core.decided_le_recorderTip (by simp [hget])
  | checkpoint =>
    refine (of_decide_eq_true hentry).trans ?_
    rw [← hmend.floor_of_base hmem]
    exact core.floor_le_recorderTip
  | proposal | reconfigurationMarker | checkpointVerified => cases hentry

/-- What the synced log covers stays covered. -/
theorem Performs.covers (hacts : replica.Performs codec action next)
    (hlids : replica.core.wal.Covers slot) : next.core.wal.Covers slot := by
  have hdid := hacts.changes
  obtain ⟨entry, hmem, hentry⟩ := hlids
  cases hacts with
  | crash hreopen =>
    exact ⟨entry, Core.synced_subset_reopen hreopen hmem, hentry⟩
  | @compactCommit running core hgoing hbar hfirst hsave =>
    obtain ⟨-, verifier, rfl⟩ := Core.compactCommit_eq_ok hsave
    -- What the rewrite drops lies at or below the base it puts in front.
    by_cases hbase : slot ≤ running.base.closedThrough
    · refine ⟨.checkpoint running.base, ?_, decide_eq_true hbase⟩
      exact List.mem_append_left _ List.mem_cons_self
    · refine ⟨entry, ?_, hentry⟩
      have hlist := replica.core.wal.synced_subset hmem
      rw [← List.take_append_drop running.fence replica.core.wal.entries] at hlist
      rcases List.mem_append.mp hlist with htake | hdrop
      · refine List.mem_append_left _ (List.mem_cons_of_mem _ (List.mem_append_right _ ?_))
        refine List.mem_filter.mpr ⟨htake, ?_⟩
        cases entry with
        | receipt | decide | checkpoint =>
          have hslot := of_decide_eq_true hentry
          exact decide_eq_true (Nat.lt_of_lt_of_le (Nat.lt_of_not_le hbase) hslot)
        | proposal | reconfigurationMarker | checkpointVerified => cases hentry
      · exact List.mem_append_right _ hdrop
  | _ => exact ⟨entry, (hdid nofun nofun).adds.synced_subset hmem, hentry⟩

theorem Changes.options_eq (hdid : replica.Changes codec core) :
    core.toCoreOptions = replica.core.toCoreOptions := by
  cases hdid with
  | marked hmarks | prepared hmarks =>
    obtain ⟨_, -, rfl⟩ := hmarks
    rfl
  | installed _ _ _ hgo | advanced hgo =>
    obtain ⟨_, _, _, _, _, _, _, rfl⟩ := hgo
    rfl
  | @completed call _ _ =>
    obtain ⟨_, _, _, _, heq⟩ := complete_eq replica.core call.1
    rw [heq]
  | _ => rfl

/-- No section changes what the replica was started with. -/
theorem Performs.options_eq (hacts : replica.Performs codec action next) :
    next.core.toCoreOptions = replica.core.toCoreOptions := by
  have hdid := hacts.changes
  cases hacts with
  | crash hreopen =>
    obtain ⟨wal, hframe, -⟩ := Core.reopen_frame hreopen
    simp only [Core.frame, Core.Frame.mk.injEq] at hframe
    simp [opened, hframe]
  | compactCommit hgoing hbar hfirst hsave =>
    obtain ⟨-, verifier, rfl⟩ := Core.compactCommit_eq_ok hsave
    rfl
  | _ => exact (hdid (by simp) (by simp)).options_eq

end Replica

end Rhiza.QuePaxa
