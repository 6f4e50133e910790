import Rhiza.QuePaxa.Discipline

/-! # What the log backs

Registers in memory are the last receipts in the log, the receipts of a slot follow
each other, and what counts as logged or durable has its marker in the log. Calls
that wait rest on entries that are in the log, and on synced ones once a sync has
released them.
-/

namespace Rhiza.QuePaxa

open Foundations

/-- The second register comes from the first by one further record. -/
def ISR.Follows (before after : ISR) : Prop :=
  ∃ step proposal, after = (before.record step proposal).1

/-- The second register comes from the first by zero or more further records. -/
def ISR.Reaches : ISR → ISR → Prop := Relation.ReflTransGen ISR.Follows

/-- The registers of a slot in the order of their receipts. -/
def registers (slot : ℕ) (entries : List Entry) : List ISR :=
  entries.filterMap (Entry.register slot)

/-- The log has a marker for the decision of the slot. -/
def Marked (slot : ℕ) (entries : List Entry) : Prop :=
  ∃ value, .decide value ∈ entries ∧ value.slot = slot

/-- The log has a receipt of the slot with this register. -/
def Receipted (slot : ℕ) (register : ISR) (entries : List Entry) : Prop :=
  ∃ hash reconfiguration, .receipt slot hash register reconfiguration ∈ entries

variable {slot : ℕ} {entries : List Entry} {register : ISR}

theorem Marked.mono {entries' : List Entry} (hnote : Marked slot entries)
    (hsub : entries ⊆ entries') : Marked slot entries' := by
  obtain ⟨value, hmem, hslot⟩ := hnote
  exact ⟨value, hsub hmem, hslot⟩

theorem Receipted.mono {entries' : List Entry}
    (hstamp : Receipted slot register entries) (hsub : entries ⊆ entries') :
    Receipted slot register entries' := by
  obtain ⟨hash, reconfiguration, hmem⟩ := hstamp
  exact ⟨hash, reconfiguration, hsub hmem⟩

theorem Receipted.mem_registers
    (hstamp : Receipted slot register entries) : register ∈ registers slot entries := by
  obtain ⟨hash, reconfiguration, hmem⟩ := hstamp
  exact List.mem_filterMap.mpr ⟨_, hmem, Entry.register_receipt_self ..⟩

/-- The last register of a chain is reached from every one before it. -/
theorem reaches_lastReceipt {last : ISR} (hchained : (registers slot entries).Pairwise ISR.Reaches)
    (hmem : register ∈ registers slot entries) (hlast : lastReceipt slot entries = some last) :
    register.Reaches last := by
  have hgets := hchained.rel_getLast_of_rel_getLast_getLast hmem .refl
  have heq := List.getLast?_eq_some_getLast (List.ne_nil_of_mem hmem)
  rw [show (registers slot entries).getLast? = some last from hlast, Option.some_inj] at heq
  rwa [heq]

namespace WAL

variable {wal : WAL} {running : RunningCompaction}

theorem entries_commitCompaction (wal : WAL) (running : RunningCompaction) :
    (wal.commitCompaction running).entries = (wal.commitCompaction running).synced :=
  List.append_nil _

/-- Entries above the base other than proposals survive the switch. -/
theorem mem_commitCompaction_of_above {entry : Entry} (hmem : entry ∈ wal.entries)
    (hprop : entry.isProposal = false) (habove : running.base.closedThrough < entry.slot) :
    entry ∈ (wal.commitCompaction running).synced := by
  rw [← List.take_append_drop running.fence wal.entries] at hmem
  rcases List.mem_append.mp hmem with htake | hdrop
  · refine List.mem_append_left _ (List.mem_cons_of_mem _ (List.mem_append_right _ ?_))
    exact List.mem_filter.mpr ⟨htake, by simp [hprop, habove]⟩
  · exact List.mem_append_right _ hdrop

/-- The base and the retained proposals carry no registers. -/
theorem registers_commitCompaction_eq (wal : WAL) (running : RunningCompaction) (slot : ℕ) :
    registers slot (wal.commitCompaction running).entries =
      registers slot ((wal.entries.take running.fence).filter fun entry =>
        !entry.isProposal && decide (running.base.closedThrough < entry.slot)) ++
        registers slot (wal.entries.drop running.fence) := by
  have hproposals : (running.retained.entries.map fun entry =>
      Entry.proposal entry.1 entry.2).filterMap (Entry.register slot) = [] := by
    simp [List.filterMap_map, Function.comp_def, Entry.register]
  have hbase : (Entry.checkpoint running.base).register slot = none := rfl
  rw [entries_commitCompaction, commitCompaction, compactedEntries]
  simp only [registers, List.filterMap_append, List.filterMap_cons, hbase, hproposals,
    List.nil_append]

/-- The receipts that survive the switch keep their order. -/
theorem registers_commitCompaction_sublist (slot : ℕ) :
    (registers slot (wal.commitCompaction running).entries).Sublist
      (registers slot wal.entries) := by
  rw [registers_commitCompaction_eq]
  conv_rhs => rw [registers, ← List.take_append_drop running.fence wal.entries,
    List.filterMap_append]
  exact (List.filter_sublist.filterMap _).append (List.Sublist.refl _)

/-- The receipts of a slot above the base all survive the switch. -/
theorem registers_commitCompaction {slot : ℕ} (habove : running.base.closedThrough < slot) :
    registers slot (wal.commitCompaction running).entries = registers slot wal.entries := by
  have hkept : ∀ entry : Entry, (if (!entry.isProposal &&
      decide (running.base.closedThrough < entry.slot)) = true then entry.register slot else none) =
        entry.register slot := by
    intro entry
    cases entry with
    | receipt slot' hash state reconfiguration =>
      by_cases hslot : slot' = slot
      · subst hslot
        simp [Entry.isProposal, Entry.slot, habove]
      · simp [Entry.register, hslot]
    | _ => simp [Entry.register]
  rw [registers_commitCompaction_eq]
  simp only [registers, List.filterMap_filter, hkept]
  rw [← List.filterMap_append, List.take_append_drop]

end WAL

theorem registers_append (slot : ℕ) (left right : List Entry) :
    registers slot (left ++ right) = registers slot left ++ registers slot right :=
  List.filterMap_append

theorem registers_eq_nil
    (hplain : ∀ entry ∈ entries, entry.register slot = none) : registers slot entries = [] :=
  List.filterMap_eq_nil_iff.mpr hplain

theorem Core.Marks.registers_eq {core next : Core} (hmarks : core.Marks next) (slot : ℕ) :
    registers slot next.wal.entries = registers slot core.wal.entries := by
  obtain ⟨marks, -, rfl⟩ := hmarks
  have hplain : registers slot (marks.map Entry.decide) = [] := by
    apply registers_eq_nil
    intro entry hentry
    obtain ⟨mark, -, rfl⟩ := List.mem_map.mp hentry
    rfl
  rw [WAL.entries_appendAll, registers_append, hplain, List.append_nil]

theorem registers_append_plain {wal : WAL} {entry : Entry} (hplain : entry.register slot = none) :
    registers slot (wal.append entry).entries = registers slot wal.entries := by
  have hnil : registers slot [entry] = [] := registers_eq_nil (by simpa using hplain)
  rw [WAL.entries_append, registers_append, hnil, List.append_nil]

namespace Replica

variable {codec : Codec} {replica next : Replica} {action : Action} {core : Core}

/-- Only the locked section of a record appends a receipt. Other sections leave the
registers of the slots that stay undecided. -/
theorem Changes.registers_cases (hdid : replica.Changes codec core) :
    (∃ request : RecordRequest, replica.core.floor < request.slot ∧
        replica.core.decided.lookup request.slot = none ∧
        core = (replica.core.answerRegister request).1) ∨
      (∀ slot, registers slot core.wal.entries = registers slot replica.core.wal.entries) ∧
        ∀ slot, core.decided.lookup slot = none → replica.core.decided.lookup slot = none ∧
          core.recorders.lookup slot = replica.core.recorders.lookup slot := by
  cases hdid with
  | recorded hfloor hunset => exact .inl ⟨_, hfloor, hunset, rfl⟩
  | same | released => exact .inr ⟨fun _ => rfl, fun _ hnone => ⟨hnone, rfl⟩⟩
  | restaged | staged =>
    exact .inr ⟨fun _ => registers_append_plain rfl, fun _ hnone => ⟨hnone, rfl⟩⟩
  | marked hmarks =>
    refine .inr ⟨hmarks.registers_eq, ?_⟩
    obtain ⟨_, -, rfl⟩ := hmarks
    exact fun _ hnone => ⟨hnone, rfl⟩
  | prepared hmarks =>
    refine .inr ⟨fun slot => (registers_append_plain rfl).trans (hmarks.registers_eq slot), ?_⟩
    obtain ⟨_, -, rfl⟩ := hmarks
    exact fun _ hnone => ⟨hnone, rfl⟩
  | advanced hgo =>
    obtain ⟨_, _, _, _, _, _, _, rfl⟩ := hgo
    exact .inr ⟨fun _ => rfl, fun _ hnone => ⟨hnone, rfl⟩⟩
  | @completed call _ _ =>
    obtain ⟨_, _, _, _, heq⟩ := complete_eq replica.core call.1
    rw [heq]
    exact .inr ⟨fun _ => rfl, fun _ hnone => ⟨hnone, rfl⟩⟩
  | synced => exact .inr ⟨fun _ => by rw [WAL.entries_sync], fun _ hnone => ⟨hnone, rfl⟩⟩
  | installed _ _ _ hgo =>
    obtain ⟨_, _, _, _, _, _, _, rfl⟩ := hgo
    refine .inr ⟨fun _ => rfl, fun slot hnone => ?_⟩
    simp only [Core.installDecision] at hnone ⊢
    rw [Table.lookup_insert_eq] at hnone
    rw [Table.lookup_erase_eq]
    split at hnone
    · cases hnone
    · rename_i hne
      exact ⟨hnone, if_neg hne⟩

end Replica

/-- The summary shows this register. -/
def Summary.Shows (summary : Summary) (register : ISR) : Prop :=
  summary.step = register.step ∧ summary.firstCurrent = register.firstCurrent ∧
    summary.aggregatePrior = register.aggregatePrior

/-- What a waiting call rests on: `log` is the part of the log that its release needs. -/
def Pending.Rests (synced log : List Entry) : Pending → Prop
  | .record request _ .ready => Marked request.slot synced
  | .record request summary (.syncValue _ register) =>
    summary.Shows register ∧ Receipted request.slot register log
  | .record request _ (.syncDecision slot _) => slot = request.slot ∧ Marked slot log
  | .record request _ (.durable slot) => slot = request.slot
  | .ensureDurable slots => ∀ slot ∈ slots, Marked slot log
  | .prepare _ prepared => ∀ entry ∈ prepared.durable, Marked entry.1 log
  | .storeValue _ => True

theorem Pending.Rests.mono {call : Pending} {synced synced' log log' : List Entry}
    (hrests : call.Rests synced log) (hsync : synced ⊆ synced') (hlog : log ⊆ log') :
    call.Rests synced' log' := by
  cases call with
  | storeValue => trivial
  | record request summary completion =>
    cases completion with
    | ready => exact Marked.mono hrests hsync
    | syncValue | syncDecision => exact ⟨hrests.1, hrests.2.mono hlog⟩
    | durable => exact hrests
  | ensureDurable => exact fun slot hslot => (hrests slot hslot).mono hlog
  | prepare => exact fun entry hentry => (hrests entry hentry).mono hlog

namespace Replica

/-- What the log backs. -/
structure Kept (codec : Codec) (replica : Replica) : Prop where
  disciplined : replica.Disciplined codec
  chained : ∀ slot, (registers slot replica.core.wal.entries).Pairwise ISR.Reaches
  current : ∀ {slot}, replica.core.floor < slot → replica.core.decided.lookup slot = none →
    replica.core.recorders.lookup slot = lastReceipt slot replica.core.wal.entries
  logged : ∀ {slot}, slot ∈ replica.core.logged → Marked slot replica.core.wal.entries
  durable : ∀ {slot}, slot ∈ replica.core.durable → Marked slot replica.core.wal.synced
  based : replica.core.floor = 0 ∨ ∃ base, .checkpoint base ∈ replica.core.wal.synced ∧
    base.closedThrough = replica.core.floor
  pending : ∀ {call flushed}, (call, flushed) ∈ replica.pending →
    call.Rests replica.core.wal.synced
      (if flushed then replica.core.wal.synced else replica.core.wal.entries)
  exclusive : replica.compaction ≠ none → ∀ {call flushed}, (call, flushed) ∈ replica.pending →
    call.holdsCheckpoint = false

variable {codec : Codec} {replica next : Replica} {action : Action} {core : Core}

variable {slot : ℕ}

section Kept

variable (hrep : replica.Kept codec)
include hrep

theorem Kept.recorder_reaches (hfloor : replica.core.floor < slot)
    (hunset : replica.core.decided.lookup slot = none) {register : ISR}
    (hmem : register ∈ registers slot replica.core.wal.entries) :
    register.Reaches (replica.core.recorder slot) := by
  obtain ⟨last, hlast⟩ := Option.ne_none_iff_exists'.mp
    (mt List.getLast?_eq_none_iff.mp (List.ne_nil_of_mem hmem))
  rw [Core.recorder, hrep.current hfloor hunset, lastReceipt,
    show (List.filterMap _ _).getLast? = some last from hlast]
  exact reaches_lastReceipt (hrep.chained slot) hmem hlast

theorem Kept.chained_changes (hdid : replica.Changes codec core) (slot : ℕ) :
    (registers slot core.wal.entries).Pairwise ISR.Reaches := by
  rcases hdid.registers_cases with ⟨request, hfloor, hunset, rfl⟩ | ⟨hsame, -⟩
  · simp only [Core.answerRegister]
    by_cases hslot : request.slot = slot
    · subst hslot
      rw [WAL.entries_append, registers_append]
      refine List.pairwise_append.mpr ⟨hrep.chained _, by simp [registers], ?_⟩
      -- Everything recorded before reaches the register, and the register the new one.
      intro before hpre after hafter
      have hgets := hrep.recorder_reaches hfloor hunset hpre
      obtain rfl : after = _ := by simpa [registers] using hafter
      exact hgets.tail ⟨_, _, rfl⟩
    · rw [registers_append_plain (Entry.register_receipt_of_ne hslot ..)]
      exact hrep.chained slot
  · rw [hsame]
    exact hrep.chained slot

theorem Kept.current_changes (hdid : replica.Changes codec core) (hfloor : core.floor < slot)
    (hunset : core.decided.lookup slot = none) :
    core.recorders.lookup slot = lastReceipt slot core.wal.entries := by
  rw [hdid.bounds_eq.2.1] at hfloor
  rcases hdid.registers_cases with ⟨request, -, -, rfl⟩ | ⟨hsame, hkept⟩
  · simp only [Core.answerRegister, WAL.entries_append]
    rw [Table.lookup_insert_eq]
    split
    · rename_i heq
      subst heq
      rw [lastReceipt_append_of_some (Entry.register_receipt_self ..)]
    · rename_i hne
      rw [lastReceipt_append_of_none (Entry.register_receipt_of_ne (Ne.symm hne) ..)]
      exact hrep.current hfloor hunset
  · obtain ⟨hpre, hpeers⟩ := hkept slot hunset
    rw [hpeers, hrep.current hfloor hpre]
    exact congrArg List.getLast? (hsame slot).symm

/-- What counts as logged after a change has its marker in the log. -/
theorem Kept.logged_changes (hdid : replica.Changes codec core) (hlogged : slot ∈ core.logged) :
    Marked slot core.wal.entries := by
  have hsub := hdid.adds.entries_subset
  have hmarks : ∀ {middle : Core}, replica.core.Marks middle → slot ∈ middle.logged →
      Marked slot middle.wal.entries := by
    rintro _ ⟨marks, -, rfl⟩ hmem
    simp only [Finset.mem_union, List.mem_toFinset, List.mem_map] at hmem
    rw [WAL.entries_appendAll]
    rcases hmem with hold | ⟨mark, hmark, rfl⟩
    · exact (hrep.logged hold).mono (List.subset_append_left _ _)
    · exact ⟨mark, List.mem_append_right _ (List.mem_map_of_mem hmark), rfl⟩
  cases hdid with
  | marked hnote => exact hmarks hnote hlogged
  | prepared hnote =>
    refine (hmarks hnote hlogged).mono ?_
    simp
  | installed _ _ _ hgo =>
    obtain ⟨_, _, _, _, _, _, _, rfl⟩ := hgo
    exact hrep.logged (Finset.mem_of_mem_erase hlogged)
  | advanced hgo =>
    obtain ⟨_, _, _, _, _, _, _, rfl⟩ := hgo
    exact hrep.logged hlogged
  | @completed call _ _ =>
    obtain ⟨_, _, _, _, heq⟩ := complete_eq replica.core call.1
    rw [heq] at hlogged ⊢
    exact hrep.logged hlogged
  | _ => exact (hrep.logged hlogged).mono hsub

/-- A released call marks as durable what its sync has covered. -/
theorem Kept.durable_complete {call : Pending × Bool} (hcall : call ∈ replica.pending)
    (hlet : released replica.core call = true)
    (hfix : slot ∈ (complete replica.core call.1).durable) :
    Marked slot replica.core.wal.synced := by
  obtain ⟨call, flushed⟩ := call
  have hrests := hrep.pending hcall
  cases call with
  | storeValue => exact hrep.durable hfix
  | record request summary completion =>
    cases completion with
    | ready | syncValue | durable => exact hrep.durable hfix
    | syncDecision =>
      obtain rfl : flushed = true := hlet
      rcases Finset.mem_insert.mp hfix with rfl | hold
      · exact hrests.2
      · exact hrep.durable hold
  | ensureDurable =>
    obtain rfl : flushed = true := hlet
    simp only [complete, Core.markDecisionsDurable_eq, Finset.mem_union, List.mem_toFinset] at hfix
    rcases hfix with hold | hslot
    · exact hrep.durable hold
    · exact hrests slot hslot
  | prepare index prepared =>
    obtain rfl : flushed = true := hlet
    rcases complete_prepare replica.core index prepared with ⟨_, -, heq⟩ | ⟨_, _, -, -, -, heq⟩ <;>
      rw [heq] at hfix
    · exact hrep.durable hfix
    · simp only [Finset.mem_union, List.mem_toFinset, Core.stillDecided, List.mem_map,
        List.mem_filter] at hfix
      rcases hfix with hold | ⟨entry, ⟨hentry, -⟩, rfl⟩
      · exact hrep.durable hold
      · exact hrests entry hentry

theorem Kept.durable_changes (hdid : replica.Changes codec core) (hfix : slot ∈ core.durable) :
    Marked slot core.wal.synced := by
  have hsub := hdid.adds.synced_subset
  cases hdid with
  | marked hmarks | prepared hmarks =>
    obtain ⟨_, -, rfl⟩ := hmarks
    exact hrep.durable hfix
  | installed _ _ _ hgo =>
    obtain ⟨_, _, _, _, _, _, _, rfl⟩ := hgo
    exact hrep.durable (Finset.mem_of_mem_erase hfix)
  | advanced hgo =>
    obtain ⟨_, _, _, _, _, _, _, rfl⟩ := hgo
    exact hrep.durable hfix
  | @completed call hcall hlet =>
    have hnote := hrep.durable_complete hcall hlet hfix
    obtain ⟨_, _, _, _, heq⟩ := complete_eq replica.core call.1
    rwa [heq]
  | _ => exact (hrep.durable hfix).mono hsub

end Kept

end Replica

namespace Core

variable {codec : Codec} {core next : Core} {slots : List ℕ}

theorem Marks.logged_subset (hmarks : core.Marks next) : core.logged ⊆ next.logged := by
  obtain ⟨marks, -, rfl⟩ := hmarks
  exact Finset.subset_union_left

theorem mem_logged_logDecision (core : Core) (decided : DecidedValue) :
    decided.slot ∈ (core.logDecision decided).logged := by
  unfold logDecision
  split
  · assumption
  · exact Finset.mem_insert_self _ _

/-- When all listed slots could be logged, all of them are. -/
theorem logSlots_logged
    (hfiled : ∀ {slot decided}, core.decided.lookup slot = some decided → decided.slot = slot)
    (hlog : logSlots slots core = (next, .ok ())) {slot : ℕ} (hslot : slot ∈ slots) :
    slot ∈ next.logged := by
  induction slots generalizing core with
  | nil => cases hslot
  | cons head rest ih =>
    unfold logSlots at hlog
    split at hlog
    · rename_i hlogged
      have hsub := (logSlots_marks rest core).logged_subset
      rw [hlog] at hsub
      rcases List.mem_cons.mp hslot with rfl | hrest
      · exact hsub hlogged
      · exact ih hfiled hlog hrest
    · cases hdec : core.decided.lookup head with
      | none =>
        rw [hdec] at hlog
        cases hlog
      | some decided =>
        rw [hdec] at hlog
        dsimp only at hlog
        have hsub := (logSlots_marks rest (core.logDecision decided)).logged_subset
        rw [hlog] at hsub
        have hkept : (core.logDecision decided).decided = core.decided := by
          obtain ⟨_, -, heq⟩ := logDecision_marks hdec
          rw [heq]
        rcases List.mem_cons.mp hslot with rfl | hrest
        · have hmem := core.mem_logged_logDecision decided
          rw [hfiled hdec] at hmem
          exact hsub hmem
        · refine ih ?_ hlog hrest
          rw [hkept]
          exact hfiled

theorem ensureDurableAppend_logSlots {slot : ℕ}
    (hadd : core.ensureDurableAppend codec slot = (next, .ok (some slots))) :
    logSlots slots core = (next, .ok ()) := by
  unfold ensureDurableAppend at hadd
  split at hadd
  · cases hadd
  split at hadd
  · cases hadd
  split at hadd
  · cases hadd
  split at hadd
  · cases hadd
  split at hadd
  · cases hadd
  dsimp only at hadd
  split at hadd
  · cases hadd
  split at hadd
  · cases hadd
  · rename_i hlog
    cases hadd
    exact hlog

/-- The decisions that a prepared checkpoint will mark as durable are all logged. -/
theorem prepareAppend_logged {checkpoint : CheckpointSeal} {payload : Bytes} {eligible : Bool}
    {prepared : PendingCheckpointPrepare}
    (hfiled : ∀ {slot decided}, core.decided.lookup slot = some decided → decided.slot = slot)
    (hmade : core.prepareAppend codec checkpoint payload eligible = .ok (next, prepared))
    {entry : ℕ × ValueHash} (hentry : entry ∈ prepared.durable) : entry.1 ∈ next.logged := by
  simp only [prepareAppend, seq_eq_ok, require_eq_ok] at hmade
  obtain ⟨-, -, -, hmade⟩ := hmade
  split at hmade
  · cases hmade
  · rename_i middle hlog
    cases hmade
    simp only [undurable, List.mem_filterMap] at hentry
    obtain ⟨slot, hslot, heq⟩ := hentry
    split at heq
    · cases heq
    · obtain ⟨decided, -, rfl⟩ := Option.map_eq_some_iff.mp heq
      exact logSlots_logged hfiled hlog hslot

end Core

namespace Replica

variable {codec : Codec} {replica next : Replica} {action : Action} {core : Core} {call : Pending}
  {flushed : Bool}

/-- A change of the core keeps what the log backs, given what the new calls rest on. -/
theorem Kept.changes (hrep : replica.Kept codec) (hdid : replica.Changes codec next.core)
    (hrule : next.Disciplined codec)
    (hpend : ∀ {call flushed}, (call, flushed) ∈ next.pending →
      (call, flushed) ∈ replica.pending ∨ call.Rests next.core.wal.synced
        (if flushed then next.core.wal.synced else next.core.wal.entries))
    (honly : next.compaction ≠ none → ∀ {call flushed}, (call, flushed) ∈ next.pending →
      call.holdsCheckpoint = false) : next.Kept codec := by
  refine ⟨hrule, hrep.chained_changes hdid, hrep.current_changes hdid,
    hrep.logged_changes hdid, hrep.durable_changes hdid, ?_, ?_, honly⟩
  · rw [hdid.bounds_eq.2.1]
    rcases hrep.based with hzero | ⟨base, hmem, hbase⟩
    · exact .inl hzero
    · exact .inr ⟨base, hdid.adds.synced_subset hmem, hbase⟩
  · intro call flushed hmem
    rcases hpend hmem with hold | hnew
    · refine (hrep.pending hold).mono hdid.adds.synced_subset ?_
      cases flushed with
      | true => exact hdid.adds.synced_subset
      | false => exact hdid.adds.entries_subset
    · exact hnew

theorem mem_wait {call' : Pending} (hmem : (call', flushed) ∈ replica.wait call) :
    (call', flushed) ∈ replica.pending ∨ call' = call ∧ flushed = false := by
  rcases List.mem_append.mp hmem with hmem | hmem
  · exact .inl hmem
  · exact .inr (Prod.mk.inj (List.mem_singleton.mp hmem))

/-- The answer of a record rests on the marker or the receipt it has appended. -/
theorem Kept.record_rests (hrep : replica.Kept codec) {request : RecordRequest}
    {eligible : Bool} {summary : Summary} {completion : Completion}
    (hjot : replica.core.recordApply codec request eligible = .ok (core, summary, completion)) :
    (Pending.record request summary completion).Rests core.wal.synced core.wal.entries := by
  have hdid := changes_of_record hjot
  rcases (Core.recordApply_cases hjot).2 with ⟨decided, hdec, hsay⟩ |
      ⟨-, -, -, hsay⟩
  · have hslot := (hrep.disciplined.filed hdec).slot_eq
    unfold Core.answerDecided at hsay
    split at hsay
    · cases hsay
      exact hrep.durable ‹_›
    · split at hsay
      · cases hsay
        exact rfl
      · cases hsay
        refine ⟨rfl, hrep.logged_changes hdid ?_⟩
        exact hslot ▸ replica.core.mem_logged_logDecision decided
  · cases hsay
    refine ⟨⟨rfl, rfl, rfl⟩, request.proposal.ref.hash, replica.core.reconfigEnabled, ?_⟩
    rw [WAL.entries_append]
    exact List.mem_append_right _ (List.mem_singleton_self _)

theorem holdsSlot_of_barrier (hbar : replica.barrier = true)
    (hmem : (call, flushed) ∈ replica.pending) : call.holdsSlot = false := by
  simp only [barrier, Bool.and_eq_true, List.all_eq_true] at hbar
  simpa using hbar.2 _ hmem

section Crash

variable (hrep : replica.Kept codec)
include hrep

theorem Kept.commit {running : RunningCompaction} (hgoing : replica.compaction = some running)
    (hbar : replica.barrier = true) (hsave : replica.core.compactCommit codec running = .ok core)
    (hrule : Disciplined codec
      { replica with core, compaction := some { running with committed := true } }) :
    Kept codec { replica with core, compaction := some { running with committed := true } } := by
  obtain ⟨hfloor, verifier, rfl⟩ := Core.compactCommit_eq_ok hsave
  have honly : ∀ {call flushed}, (call, flushed) ∈ replica.pending →
      call.holdsCheckpoint = false :=
    hrep.exclusive (by simp [hgoing])
  have hfree : ∀ {call flushed}, (call, flushed) ∈ replica.pending → call.holdsSlot = false :=
    holdsSlot_of_barrier hbar
  -- Slots above the new base keep their decision and their register.
  have habove : ∀ {α : Type} {table : Table ℕ α} {slot : ℕ},
      running.base.closedThrough < slot →
        (table.restrict (running.base.closedThrough < ·)).lookup slot = table.lookup slot := by
    intro α table slot hslot
    rw [Table.lookup_restrict, if_pos (decide_eq_true hslot)]
  have hnote : ∀ {slot}, running.base.closedThrough < slot →
      Marked slot replica.core.wal.entries →
      Marked slot (replica.core.wal.commitCompaction running).synced := by
    rintro slot hslot ⟨value, hmem, rfl⟩
    exact ⟨value, WAL.mem_commitCompaction_of_above hmem rfl hslot, rfl⟩
  refine ⟨hrule, ?_, ?_, ?_, ?_, ?_, ?_, fun _ => honly⟩
  · exact fun slot => (hrep.chained slot).sublist (WAL.registers_commitCompaction_sublist slot)
  · intro slot hslot hunset
    have hpre : replica.core.decided.lookup slot = none := (habove hslot).symm.trans hunset
    have hnow := hrep.current (hfloor.trans hslot) hpre
    refine (habove hslot).trans (hnow.trans ?_)
    exact congrArg List.getLast? (WAL.registers_commitCompaction hslot).symm
  · intro slot hlogged
    obtain ⟨hlogged, hslot⟩ := Finset.mem_filter.mp hlogged
    refine (hnote hslot (hrep.logged hlogged)).mono ?_
    exact WAL.synced_subset _
  · intro slot hfix
    obtain ⟨hfix, hslot⟩ := Finset.mem_filter.mp hfix
    exact hnote hslot ((hrep.durable hfix).mono (WAL.synced_subset _))
  · exact .inr ⟨running.base, List.mem_append_left _ List.mem_cons_self, rfl⟩
  · intro call flushed hmem
    -- Only calls that wait for a value are left behind the barrier.
    cases call with
    | storeValue => trivial
    | record | ensureDurable => exact absurd (hfree hmem) (by simp [Pending.holdsSlot])
    | prepare =>
      exact absurd (honly hmem) (by simp [Pending.holdsCheckpoint])

theorem Kept.crash (hopen : replica.core.reopen codec = .ok core) : (opened core).Kept codec := by
  have hrule := hrep.disciplined
  have hmend := Core.reopen_restored hrule.headed.append_left hopen
  obtain ⟨hlist, added, hadded, hlog⟩ := Core.reopen_log hopen
  have hsub := Core.synced_subset_reopen hopen
  have hregisters : ∀ slot,
      registers slot core.wal.entries = registers slot replica.core.wal.synced := by
    intro slot
    have hplain : registers slot added = [] :=
      registers_eq_nil fun entry hmem => by rw [hadded entry hmem]; rfl
    rw [hlist, hlog, registers_append, hplain, List.append_nil]
  -- A decided slot has its marker in the log that was replayed.
  have hnote : ∀ {slot}, (core.decided.lookup slot).isSome → Marked slot core.wal.synced := by
    intro slot hsome
    obtain ⟨decided, hget⟩ := Option.isSome_iff_exists.mp hsome
    obtain ⟨value, hmem, rfl, -⟩ := hmend.decided_source hget
    have hfiled := hrule.markers (replica.core.wal.synced_subset hmem)
    exact ⟨value, hsub hmem, hfiled.certified_slot.symm⟩
  refine ⟨hrule.crash hopen, ?_, ?_, ?_, ?_, ?_,
    fun hmem => (by cases hmem), fun hgoing => absurd rfl hgoing⟩
  · intro slot
    change (registers slot core.wal.entries).Pairwise _
    rw [hregisters]
    refine (hrep.chained slot).sublist (List.Sublist.filterMap _ ?_)
    exact List.sublist_append_left _ _
  · intro slot hslot hunset
    refine (hmend.register_of_undecided (by omega) hunset).trans ?_
    exact congrArg List.getLast? (hregisters slot).symm
  · intro slot hlogged
    exact hlist ▸ hnote (hmend.logged_iff.mp hlogged)
  · intro slot hfix
    exact hnote (hmend.durable_iff.mp hfix)
  · by_cases hbase : ∃ base, .checkpoint base ∈ replica.core.wal.synced
    · obtain ⟨base, hmem⟩ := hbase
      exact .inr ⟨base, hsub hmem, (hmend.floor_of_base hmem).symm⟩
    · exact .inl (hmend.floor_of_none fun base hmem => hbase ⟨base, hmem⟩)

theorem Kept.floor_le_reopen (hopen : replica.core.reopen codec = .ok core) :
    replica.core.floor ≤ core.floor := by
  have hmend := Core.reopen_restored hrep.disciplined.headed.append_left hopen
  rcases hrep.based with hzero | ⟨base, hbase, hshut⟩
  · exact hzero ▸ Nat.zero_le _
  · exact (hshut ▸ hmend.floor_of_base hbase).ge

/-- Every section keeps what the log backs. -/
theorem Kept.performs (hacts : replica.Performs codec action next) : next.Kept codec := by
  have hrule := hrep.disciplined.performs hacts
  have hslots : ∀ {slot decided}, replica.core.decided.lookup slot = some decided →
      decided.slot = slot := fun hget => (hrep.disciplined.filed hget).slot_eq
  -- A section that adds a waiting call owes what the call rests on.
  have hwait : ∀ {core : Core} {call : Pending}, replica.Changes codec core →
      Disciplined codec { replica with core, pending := replica.wait call } →
      call.Rests core.wal.synced core.wal.entries →
      (replica.compaction ≠ none → call.holdsCheckpoint = false) →
      Kept codec { replica with core, pending := replica.wait call } := by
    intro core call hdid hrule hrests hcheckpoint
    refine hrep.changes hdid hrule ?_ ?_
    · intro call' flushed hmem
      rcases mem_wait hmem with hold | ⟨rfl, rfl⟩
      · exact .inl hold
      · exact .inr hrests
    · intro hgoing call' flushed hmem
      rcases mem_wait hmem with hold | ⟨rfl, rfl⟩
      · exact hrep.exclusive hgoing hold
      · exact hcheckpoint hgoing
  have herase : ∀ {index call flushed}, (call, flushed) ∈ replica.pending.eraseIdx index →
      (call, flushed) ∈ replica.pending := fun hmem => List.mem_of_mem_eraseIdx hmem
  have hdid := hacts.changes
  cases hacts with
  | crash hopen => exact hrep.crash hopen
  | compactCommit hgoing hbar hfirst hsave =>
    exact hrep.commit hgoing hbar hsave hrule
  | storeValue =>
    exact hwait (hdid nofun nofun) hrule trivial fun _ => rfl
  | record hin hjot =>
    exact hwait (hdid nofun nofun) hrule (hrep.record_rests hjot) fun _ => rfl
  | ensureDurable hadd =>
    refine hwait (hdid nofun nofun) hrule ?_ fun _ => rfl
    intro slot hslot
    refine hrep.logged_changes (hdid nofun nofun) ?_
    exact Core.logSlots_logged hslots (Core.ensureDurableAppend_logSlots hadd) hslot
  | prepare hidle hmade =>
    refine hwait (hdid nofun nofun) hrule ?_ fun hgoing => absurd hidle hgoing
    intro entry hentry
    refine hrep.logged_changes (hdid nofun nofun) ?_
    exact Core.prepareAppend_logged hslots hmade hentry
  | sync =>
    refine hrep.changes (hdid nofun nofun) hrule ?_ ?_
    · intro call flushed hmem
      obtain ⟨⟨call, flushed⟩, hcall, ⟨⟩⟩ := List.mem_map.mp hmem
      refine .inr ((hrep.pending hcall).mono (List.subset_append_left _ _) ?_)
      -- A sync flushes everything that was appended before it.
      cases flushed with
      | true => exact List.subset_append_left _ _
      | false => exact List.Subset.refl _
    · intro hgoing call flushed hmem
      obtain ⟨⟨call, flushed⟩, hcall, ⟨⟩⟩ := List.mem_map.mp hmem
      exact hrep.exclusive hgoing hcall
  | finish =>
    exact hrep.changes (hdid nofun nofun) hrule (fun hmem => .inl (herase hmem))
      fun hgoing _ _ hmem => hrep.exclusive hgoing (herase hmem)
  | cancel =>
    exact hrep.changes (hdid nofun nofun) hrule (fun hmem => .inl (herase hmem))
      fun hgoing _ _ hmem => hrep.exclusive hgoing (herase hmem)
  | compactBegin hidle hbar hfree hbegin =>
    refine hrep.changes (hdid nofun nofun) hrule .inl ?_
    intro _ call flushed hmem
    simpa using List.all_eq_true.mp hfree _ hmem
  | compactFinish =>
    exact hrep.changes (hdid nofun nofun) hrule .inl
      fun hgoing => absurd rfl hgoing
  | _ =>
    exact hrep.changes (hdid nofun nofun) hrule .inl hrep.exclusive

end Crash

theorem kept_newCore (codec : Codec) (options : CoreOptions) :
    (opened (newCore options ⟨[], []⟩)).Kept codec where
  disciplined := disciplined_newCore ..
  chained _ := .nil
  current _ _ := rfl
  logged := nofun
  durable := nofun
  based := .inl rfl
  pending := nofun
  exclusive hgoing := absurd rfl hgoing

/-- Every run keeps what the log backs. -/
theorem Kept.run (hrep : replica.Kept codec) {actions : List Action}
    (hrun : replica.run codec actions = some next) : next.Kept codec := by
  have hstep : ∀ {replica action next}, Kept codec replica → True →
      step codec replica action = some next → Kept codec next :=
    fun hrep _ hstep => hrep.performs (step_performs hstep)
  exact (guarded_of_forall (fun _ _ => trivial) replica).invariant hstep hrun hrep

end Replica

end Rhiza.QuePaxa
