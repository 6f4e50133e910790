import Mathlib.Data.List.ReduceOption
import Rhiza.QuePaxa.Durability

/-! # Bytes behind hashes

Decisions, registers and durable values name their bytes by hash. The bytes come back
after a restart only if an entry of the synced log carries them, and the switch of a
compaction drops every proposal entry before its fence that it did not retain. This
module states what has to be in the log, and what a running compaction must spare,
for the hashes a replica answers with.
-/

namespace Rhiza.QuePaxa

open Foundations

instance (entries : List Entry) (hash : ValueHash) : Decidable (Carries entries hash) :=
  inferInstanceAs (Decidable (∃ entry ∈ entries, _))

section Carries

variable {left right : List Entry} {hash : ValueHash}

theorem Carries.mono (hbear : Carries left hash) (hsub : left ⊆ right) : Carries right hash := by
  obtain ⟨entry, hmem, hcarried⟩ := hbear
  exact ⟨entry, hsub hmem, hcarried⟩

theorem carries_append_iff :
    Carries (left ++ right) hash ↔ Carries left hash ∨ Carries right hash := by
  simp only [Carries, List.mem_append, or_and_right, exists_or]

/-- A marker carries the bytes of its decision. -/
theorem carries_of_marker {codec : Codec} {value : DecidedValue} (hmem : .decide value ∈ left)
    (hfiled : value.Filed codec value.slot) : Carries left value.hash :=
  ⟨_, hmem, congrArg some hfiled.certified_hash⟩

/-- What is appended behind the fence is appended behind the switch as well. -/
theorem WAL.carries_commitCompaction {wal next : WAL} {running : RunningCompaction}
    {added : List Entry} (hfence : running.fence ≤ wal.entries.length)
    (hlist : next.entries = wal.entries ++ added) :
    Carries (next.commitCompaction running).entries hash ↔
      Carries (wal.commitCompaction running).entries hash ∨ Carries added hash := by
  have heq : (next.commitCompaction running).entries =
      (wal.commitCompaction running).entries ++ added := by
    rw [entries_commitCompaction, entries_commitCompaction]
    simp only [commitCompaction, hlist, List.take_append_of_le_length hfence,
      List.drop_append_of_le_length hfence, List.append_assoc]
  rw [heq, carries_append_iff]

end Carries

/-- The proposals that a summary names. -/
def Summary.proposals (summary : Summary) : List Proposal :=
  [summary.firstCurrent, summary.aggregatePrior].reduceOption

theorem ISR.mem_proposals_next {state : ISR} {step : ℕ} {offered proposal : Proposal}
    (hmem : proposal ∈ (state.next step offered).proposals) :
    proposal = offered ∨ proposal ∈ state.proposals := by
  simp only [ISR.proposals, List.reduceOption_mem_iff, List.mem_cons, List.not_mem_nil,
    or_false] at hmem ⊢
  rcases Nat.lt_trichotomy step state.step with hlt | heq | hgt
  · rw [ISR.next_of_lt hlt] at hmem
    exact .inr hmem
  · rw [ISR.next_of_eq heq] at hmem
    rcases hmem with hfirst | hnow | hprior
    · exact .inr (.inl hfirst)
    · have hchose := maxProposal_mem hnow.symm
      simp only [List.mem_cons, List.not_mem_nil, or_false, Option.some.injEq] at hchose
      rcases hchose with hold | rfl
      · exact .inr (.inr (.inl hold))
      · exact .inl rfl
    · exact .inr (.inr (.inr hprior))
  · rw [ISR.next_of_gt hgt] at hmem
    rcases hmem with hfirst | hnow | hprior
    · exact .inl (Option.some_inj.mp hfirst)
    · exact .inl (Option.some_inj.mp hnow)
    · split at hprior
      · exact .inr (.inr (.inl hprior))
      · cases hprior

/-- A summary names proposals of the register it shows. -/
theorem Summary.Shows.proposals_subset {summary : Summary} {register : ISR}
    (hshows : summary.Shows register) : summary.proposals ⊆ register.proposals := by
  obtain ⟨-, hfirst, hprior⟩ := hshows
  intro proposal hmem
  simp only [Summary.proposals, hfirst, hprior, ISR.proposals, List.reduceOption_mem_iff,
    List.mem_cons, List.not_mem_nil, or_false] at hmem ⊢
  rcases hmem with hmem | hmem
  · exact .inl hmem
  · exact .inr (.inr hmem)

/-- Above the floor, the last receipt of a slot without a marker names only hashes
that are had. -/
def Supplied (floor : ℕ) (log : List Entry) (has : ℕ → ValueHash → Prop) : Prop :=
  ∀ slot register, floor < slot → ¬ Marked slot log → lastReceipt slot log = some register →
    ∀ proposal ∈ register.proposals, has slot proposal.hash

section Supplied

variable {floor : ℕ} {log added : List Entry} {has has' : ℕ → ValueHash → Prop}

/-- Entries without a register ask for nothing new. -/
theorem Supplied.append (hgave : Supplied floor log has)
    (hplain : ∀ entry ∈ added, ∀ slot, entry.register slot = none)
    (hhas : ∀ {slot hash}, has slot hash → has' slot hash) :
    Supplied floor (log ++ added) has' := by
  intro slot register hfloor hbare hlast proposal hmem
  have hsame : registers slot (log ++ added) = registers slot log := by
    rw [registers_append, registers_eq_nil fun entry hentry => hplain entry hentry slot,
      List.append_nil]
  refine hhas (hgave slot register hfloor (fun hnote => hbare ?_) ?_ proposal hmem)
  · exact hnote.mono (List.subset_append_left _ _)
  · exact (congrArg List.getLast? hsame).symm.trans hlast

theorem Supplied.mono (hgave : Supplied floor log has)
    (hhas : ∀ {slot hash}, has slot hash → has' slot hash) : Supplied floor log has' := by
  intro slot register hfloor hbare hlast proposal hmem
  exact hhas (hgave slot register hfloor hbare hlast proposal hmem)

/-- A receipt asks for the hashes of its own register. -/
theorem Supplied.receipt (hgave : Supplied floor log has)
    (hhas : ∀ {slot hash}, has slot hash → has' slot hash) {slot : ℕ} {hash : ValueHash}
    {register : ISR} {reconfiguration : Bool}
    (hreg : floor < slot → ¬ Marked slot log →
      ∀ proposal ∈ register.proposals, has' slot proposal.hash) :
    Supplied floor (log ++ [.receipt slot hash register reconfiguration]) has' := by
  intro other last hfloor hbare hlast
  have hbare' : ¬ Marked other log :=
    fun hnote => hbare (hnote.mono (List.subset_append_left _ _))
  by_cases hslot : slot = other
  · subst hslot
    rw [lastReceipt_append_of_some (Entry.register_receipt_self ..)] at hlast
    cases hlast
    exact hreg hfloor hbare'
  · rw [lastReceipt_append_of_none (Entry.register_receipt_of_ne hslot ..)] at hlast
    exact fun proposal hmem => hhas (hgave other last hfloor hbare' hlast proposal hmem)

end Supplied

namespace Replica

/-- Should a running compaction with a base below the slot switch now, the log would
still carry the bytes. -/
def Survives (replica : Replica) (slot : ℕ) (hash : ValueHash) : Prop :=
  ∀ running, replica.compaction = some running → running.committed = false →
    running.base.closedThrough < slot →
      Carries (replica.core.wal.commitCompaction running).entries hash

/-- The log carries the bytes, and goes on doing so after a switch. -/
def Backs (replica : Replica) (log : List Entry) (slot : ℕ) (hash : ValueHash) : Prop :=
  Carries log hash ∧ replica.Survives slot hash

end Replica

/-- What a waiting call owes to the log before it may release an answer. -/
def Pending.Stocks (replica : Replica) (log : List Entry) : Pending → Prop
  | .storeValue hash => Carries log hash ∧ (replica.core.values.lookup hash).isSome
  | .record request summary (.syncValue hash _) =>
    (Carries log hash ∧ (replica.core.values.lookup hash).isSome) ∧
      ∀ proposal ∈ summary.proposals, replica.Backs log request.slot proposal.hash
  | .record _ _ (.syncDecision _ hash) =>
    Carries log hash ∧ (replica.core.values.lookup hash).isSome
  | .ensureDurable slots => ∀ slot ∈ slots, replica.core.floor < slot
  | _ => True

namespace Replica

/-- Memory, log and running compaction agree on which bytes are at hand. -/
structure Stocked (replica : Replica) : Prop where
  agree : ∀ {value decided}, .decide value ∈ replica.core.wal.entries →
    replica.core.decided.lookup value.slot = some decided → decided.hash = value.hash
  found : ∀ {value}, .decide value ∈ replica.core.wal.entries → replica.core.floor < value.slot →
    (replica.core.decided.lookup value.slot).isSome
  held : ∀ {slot decided}, replica.core.decided.lookup slot = some decided →
    (replica.core.values.lookup decided.hash).isSome
  vacated : ∀ {slot}, (replica.core.decided.lookup slot).isSome →
    replica.core.recorders.lookup slot = none
  durable : ∀ {hash}, hash ∈ replica.core.valueDurable →
    Carries replica.core.wal.synced hash ∧ (replica.core.values.lookup hash).isSome
  supplied : Supplied replica.core.floor replica.core.wal.entries
    (replica.Backs replica.core.wal.entries)
  suppliedSynced : Supplied replica.core.floor replica.core.wal.synced
    fun _ => Carries replica.core.wal.synced
  decided : ∀ {slot decided}, replica.core.decided.lookup slot = some decided →
    Carries replica.core.wal.entries decided.hash → replica.Survives slot decided.hash
  keeping : ∀ {running}, replica.compaction = some running → running.committed = false →
    ∃ kept, replica.core.compactionValues = some kept ∧
      ∀ hash ∈ kept, Carries (replica.core.wal.commitCompaction running).entries hash
  waiting : ∀ {call flushed}, (call, flushed) ∈ replica.pending → call.Stocks replica
    (if flushed then replica.core.wal.synced else replica.core.wal.entries)

variable {codec : Codec} {replica next : Replica} {added : List Entry} {slot : ℕ}
  {hash : ValueHash}

/-- Appending keeps what survives a switch. -/
theorem Survives.adds (hstays : replica.Survives slot hash) (hrule : replica.Disciplined codec)
    (hlist : next.core.wal.entries = replica.core.wal.entries ++ added)
    (hpack : next.compaction = replica.compaction) : next.Survives slot hash := by
  intro running hgoing hopen hbase
  rw [hpack] at hgoing
  obtain ⟨hfence, -⟩ := hrule.fenced hgoing hopen
  exact (WAL.carries_commitCompaction hfence hlist).mpr
    (.inl (hstays running hgoing hopen hbase))

/-- What was appended after the fence survives the switch. -/
theorem survives_of_added (hrule : replica.Disciplined codec)
    (hlist : next.core.wal.entries = replica.core.wal.entries ++ added)
    (hpack : next.compaction = replica.compaction) (hadded : Carries added hash) :
    next.Survives slot hash := by
  intro running hgoing hopen hbase
  rw [hpack] at hgoing
  obtain ⟨hfence, -⟩ := hrule.fenced hgoing hopen
  exact (WAL.carries_commitCompaction hfence hlist).mpr (.inr hadded)

end Replica

/-- Waiting calls keep what they owe when nothing is lost. -/
theorem Pending.Stocks.mono {replica next : Replica} {call : Pending} {log log' : List Entry}
    (hstock : call.Stocks replica log) (hlog : log ⊆ log')
    (hdata : ∀ {hash}, (replica.core.values.lookup hash).isSome →
      (next.core.values.lookup hash).isSome)
    (hfloor : next.core.floor = replica.core.floor)
    (hstays : ∀ {slot hash}, replica.Survives slot hash → next.Survives slot hash) :
    call.Stocks next log' := by
  have hheld : ∀ {hash}, Carries log hash ∧ (replica.core.values.lookup hash).isSome →
      Carries log' hash ∧ (next.core.values.lookup hash).isSome :=
    fun hheld => ⟨hheld.1.mono hlog, hdata hheld.2⟩
  cases call with
  | storeValue => exact hheld hstock
  | record request summary completion =>
    cases completion with
    | syncValue =>
      refine ⟨hheld hstock.1, fun proposal hmem => ?_⟩
      obtain ⟨hbear, hafter⟩ := hstock.2 proposal hmem
      exact ⟨hbear.mono hlog, hstays hafter⟩
    | syncDecision => exact hheld hstock
    | ready | durable => trivial
  | ensureDurable => exact fun slot hslot => hfloor ▸ hstock slot hslot
  | prepare => trivial

namespace Core

/-- Entries were appended, and bytes were remembered; decisions and what counts as durable
are as before. -/
structure Appends (core next : Core) (added : List Entry) : Prop where
  decided : next.decided = core.decided
  floor : next.floor = core.floor
  durable : next.valueDurable = core.valueDurable
  values : ∀ {hash}, (core.values.lookup hash).isSome → (next.values.lookup hash).isSome
  entries : next.wal.entries = core.wal.entries ++ added
  synced : next.wal.synced = core.wal.synced ∨ next.wal.synced = next.wal.entries
  markers : ∀ {value}, .decide value ∈ added → ∃ slot, core.decided.lookup slot = some value
  kept : next.compactionValues = core.compactionValues ∨ ∃ hash, Carries added hash ∧
    next.compactionValues = core.compactionValues.map (insert hash)

/-- Bytes and markers were appended, and the registers are as before. -/
structure Stores (core next : Core) (added : List Entry) : Prop
    extends core.Appends next added where
  recorders : next.recorders = core.recorders
  plain : ∀ entry ∈ added, ∀ slot, entry.register slot = none

variable {codec : Codec} {core next : Core} {added : List Entry}

theorem Stores.refl (core : Core) : core.Stores core [] where
  decided := rfl
  recorders := rfl
  floor := rfl
  durable := rfl
  values := id
  entries := (List.append_nil _).symm
  synced := .inl rfl
  plain := nofun
  markers := nofun
  kept := .inl rfl

theorem Appends.synced_subset (hgrew : core.Appends next added) :
    core.wal.synced ⊆ next.wal.synced := by
  rcases hgrew.synced with heq | heq <;> rw [heq]
  · exact List.Subset.refl _
  · rw [hgrew.entries]
    exact List.Subset.trans core.wal.synced_subset (List.subset_append_left _ _)

theorem Appends.entries_subset (hgrew : core.Appends next added) :
    core.wal.entries ⊆ next.wal.entries := by
  rw [hgrew.entries]
  exact List.subset_append_left _ _

/-- Staging stores bytes that are new, or that a running compaction would drop. -/
theorem stores_of_stage {hash : ValueHash} {value : Bytes}
    (hstage : core.stageValueLocked hash value = .ok next) :
    ∃ added, core.Stores next added ∧ (next.values.lookup hash).isSome ∧
      (Carries core.wal.entries hash ∨ core.values.lookup hash = none →
        Carries next.wal.entries hash) := by
  have hplain : ∀ entry ∈ [Entry.proposal hash value], ∀ slot, entry.register slot = none := by
    simp [Entry.register]
  have hcarried : Carries [.proposal hash value] hash := ⟨_, List.mem_singleton_self _, rfl⟩
  rcases stageValueLocked_cases hstage with ⟨hvalue, -, rfl⟩ | ⟨hvalue, rfl⟩ | ⟨hnew, rfl⟩
  · refine ⟨[], .refl _, by simp [hvalue], ?_⟩
    rintro (hbear | hnone)
    · exact hbear
    · rw [hnone] at hvalue
      cases hvalue
  · refine ⟨[.proposal hash value], ?_, by simp [hvalue], fun _ => ?_⟩
    · exact ⟨⟨rfl, rfl, rfl, id, by simp, .inl rfl, by simp, .inr ⟨hash, hcarried, rfl⟩⟩, rfl,
        hplain⟩
    · rw [WAL.entries_append, carries_append_iff]
      exact .inr hcarried
  · refine ⟨[.proposal hash value], ?_, by simp, fun _ => ?_⟩
    · refine ⟨⟨rfl, rfl, rfl, fun {other} hsome => ?_, by simp, .inl rfl, by simp,
        .inr ⟨hash, hcarried, rfl⟩⟩, rfl, hplain⟩
      rw [Table.lookup_insert_eq]
      split
      · rfl
      · exact hsome
    · rw [WAL.entries_append, carries_append_iff]
      exact .inr hcarried

theorem Marks.stores (hmarks : core.Marks next) :
    ∃ marks : List DecidedValue, core.Stores next (marks.map .decide) := by
  obtain ⟨marks, hdec, rfl⟩ := hmarks
  refine ⟨marks, ⟨rfl, rfl, rfl, id, by simp, .inl rfl, ?_, .inl rfl⟩, rfl, ?_⟩
  · intro value hmem
    obtain ⟨mark, hmark, heq⟩ := List.mem_map.mp hmem
    cases heq
    exact hdec _ hmark
  · intro entry hentry slot
    obtain ⟨mark, -, rfl⟩ := List.mem_map.mp hentry
    rfl

theorem Advances.stores (hgo : core.Advances next) : core.Stores next [] := by
  obtain ⟨_, _, _, _, _, _, _, rfl⟩ := hgo
  exact { Stores.refl core with }

end Core

namespace Replica

variable {codec : Codec} {replica next : Replica} {added : List Entry}

theorem Backs.appends {slot : ℕ} {hash : ValueHash}
    (hbacks : replica.Backs replica.core.wal.entries slot hash) (hrule : replica.Disciplined codec)
    (hgrew : replica.core.Appends next.core added) (hpack : next.compaction = replica.compaction) :
    next.Backs next.core.wal.entries slot hash :=
  ⟨hbacks.1.mono hgrew.entries_subset, hbacks.2.adds hrule hgrew.entries hpack⟩

/-- Appending keeps the stock, given what registers, receipts and waiting calls then owe. -/
theorem Stocked.appends (hrep : replica.Stocked) (hrule : replica.Disciplined codec)
    (hgrew : replica.core.Appends next.core added) (hpack : next.compaction = replica.compaction)
    (hvacated : ∀ {slot}, (replica.core.decided.lookup slot).isSome →
      next.core.recorders.lookup slot = none)
    (hgave : Supplied replica.core.floor next.core.wal.entries (next.Backs next.core.wal.entries))
    (hwait : ∀ {call flushed}, (call, flushed) ∈ next.pending →
      (call, flushed) ∈ replica.pending ∨ call.Stocks next
        (if flushed then next.core.wal.synced else next.core.wal.entries)) : next.Stocked := by
  have hstays : ∀ {slot hash}, replica.Survives slot hash → next.Survives slot hash :=
    fun hstays => hstays.adds hrule hgrew.entries hpack
  refine ⟨?_, ?_, ?_, ?_, ?_, ?_, ?_, ?_, ?_, ?_⟩
  · intro value decided hmem hget
    rw [hgrew.decided] at hget
    rw [hgrew.entries] at hmem
    rcases List.mem_append.mp hmem with hold | hnew
    · exact hrep.agree hold hget
    · obtain ⟨slot, hvalue⟩ := hgrew.markers hnew
      rw [(hrule.filed hvalue).slot_eq, hvalue] at hget
      exact congrArg DecidedValue.hash (Option.some_inj.mp hget).symm
  · intro value hmem hfloor
    rw [hgrew.decided]
    rw [hgrew.floor] at hfloor
    rw [hgrew.entries] at hmem
    rcases List.mem_append.mp hmem with hold | hnew
    · exact hrep.found hold hfloor
    · obtain ⟨slot, hvalue⟩ := hgrew.markers hnew
      rw [(hrule.filed hvalue).slot_eq, hvalue]
      rfl
  · intro slot decided hget
    rw [hgrew.decided] at hget
    exact hgrew.values (hrep.held hget)
  · intro slot hsome
    rw [hgrew.decided] at hsome
    exact hvacated hsome
  · intro hash hfix
    rw [hgrew.durable] at hfix
    obtain ⟨hbear, hvalue⟩ := hrep.durable hfix
    exact ⟨hbear.mono hgrew.synced_subset, hgrew.values hvalue⟩
  · rw [hgrew.floor]
    exact hgave
  · rw [hgrew.floor]
    -- Either nothing was synced, or all that is in the log.
    rcases hgrew.synced with heq | heq <;> rw [heq]
    · exact hrep.suppliedSynced
    · exact hgave.mono fun hbacks => hbacks.1
  · intro slot decided hget hbear
    rw [hgrew.decided] at hget
    rw [hgrew.entries, carries_append_iff] at hbear
    rcases hbear with hold | hnew
    · exact hstays (hrep.decided hget hold)
    · exact survives_of_added hrule hgrew.entries hpack hnew
  · intro running hgoing hopen
    rw [hpack] at hgoing
    obtain ⟨kept, hkept, hbear⟩ := hrep.keeping hgoing hopen
    obtain ⟨hfence, -⟩ := hrule.fenced hgoing hopen
    have hafter : ∀ {hash}, Carries (next.core.wal.commitCompaction running).entries hash ↔
        Carries (replica.core.wal.commitCompaction running).entries hash ∨ Carries added hash :=
      WAL.carries_commitCompaction hfence hgrew.entries
    rcases hgrew.kept with heq | ⟨hash, hadded, heq⟩ <;> rw [heq, hkept]
    · exact ⟨kept, rfl, fun hash hmem => hafter.mpr (.inl (hbear hash hmem))⟩
    · refine ⟨insert hash kept, rfl, fun other hmem => ?_⟩
      rcases Finset.mem_insert.mp hmem with rfl | hold
      · exact hafter.mpr (.inr hadded)
      · exact hafter.mpr (.inl (hbear other hold))
  · intro call flushed hmem
    rcases hwait hmem with hold | hnew
    · refine (hrep.waiting hold).mono ?_ hgrew.values hgrew.floor hstays
      cases flushed with
      | true => exact hgrew.synced_subset
      | false => exact hgrew.entries_subset
    · exact hnew

/-- Storing keeps the stock, given what the waiting calls owe afterwards. -/
theorem Stocked.stores (hrep : replica.Stocked) (hrule : replica.Disciplined codec)
    (hhold : replica.core.Stores next.core added) (hpack : next.compaction = replica.compaction)
    (hwait : ∀ {call flushed}, (call, flushed) ∈ next.pending →
      (call, flushed) ∈ replica.pending ∨ call.Stocks next
        (if flushed then next.core.wal.synced else next.core.wal.entries)) : next.Stocked := by
  refine hrep.appends hrule hhold.toAppends hpack (fun hsome => ?_) ?_ hwait
  · rw [hhold.recorders]
    exact hrep.vacated hsome
  · have hgave := hrep.supplied.append hhold.plain fun hbacks =>
      hbacks.appends hrule hhold.toAppends hpack
    rwa [← hhold.entries] at hgave

end Replica

namespace Core

variable {codec : Codec} {core : Core} {through : ℕ} {hash : ValueHash}
  {retained : Table ValueHash Bytes}

/-- The hashes that decisions and registers above a slot refer to. -/
def usedHashesAbove (core : Core) (through : ℕ) : List ValueHash :=
  usedHashes { core with
    decided := core.decided.restrict (through < ·)
    recorders := core.recorders.restrict (through < ·) }

theorem mem_usedHashesAbove : hash ∈ core.usedHashesAbove through ↔
    (∃ slot decided, core.decided.lookup slot = some decided ∧ through < slot ∧
        decided.hash = hash) ∨
      ∃ slot register, core.recorders.lookup slot = some register ∧ through < slot ∧
        ∃ proposal ∈ register.proposals, proposal.hash = hash := by
  simp only [usedHashesAbove, usedHashes, List.mem_append, List.mem_map, List.mem_flatMap,
    Table.mem_values_iff, Table.lookup_restrict_some, decide_eq_true_eq]
  constructor
  · rintro (⟨decided, ⟨slot, hget, hslot⟩, rfl⟩ |
      ⟨proposal, ⟨register, ⟨slot, hget, hslot⟩, hmem⟩, rfl⟩)
    · exact .inl ⟨slot, decided, hget, hslot, rfl⟩
    · exact .inr ⟨slot, register, hget, hslot, proposal, hmem, rfl⟩
  · rintro (⟨slot, decided, hget, hslot, rfl⟩ | ⟨slot, register, hget, hslot, proposal, hmem, rfl⟩)
    · exact .inl ⟨decided, ⟨slot, hget, hslot⟩, rfl⟩
    · exact .inr ⟨proposal, ⟨register, ⟨slot, hget, hslot⟩, hmem⟩, rfl⟩

theorem mem_retainProposals {proposals : List (ValueHash × Bytes)}
    (hretain : retainProposals codec proposals = .ok retained)
    {value : Bytes} (hmem : (hash, value) ∈ proposals) : hash ∈ retained.keys := by
  induction proposals generalizing retained with
  | nil => cases hmem
  | cons head rest ih =>
    obtain ⟨-, hretain⟩ := seq_eq_ok.mp hretain
    obtain ⟨tail, htail, hretain⟩ := bind_eq_ok.mp hretain
    cases hretain
    rw [← AList.mem_keys, AList.mem_insert]
    rcases List.mem_cons.mp hmem with rfl | hrest
    · exact .inl rfl
    · exact .inr (AList.mem_keys.mpr (ih htail hrest))

/-- What is used above the new base is retained, or a marker above the base has it. -/
theorem mem_kept_of_used
    (hstay : core.liveProposalValuesAbove codec through = .ok retained)
    (hused : hash ∈ core.usedHashesAbove through) :
    hash ∈ retained.keys ∨ hash ∈ core.loggedHashes through := by
  by_cases hlogged : hash ∈ core.loggedHashes through
  · exact .inr hlogged
  · refine .inl ?_
    rcases mem_usedHashesAbove.mp hused with ⟨slot, decided, hget, hslot, rfl⟩ |
        ⟨slot, register, hget, hslot, proposal, hmem, rfl⟩
    · have hentry : (⟨slot, decided⟩ : Σ _ : ℕ, DecidedValue) ∈ core.decided.entries :=
        AList.mem_lookup_iff.mp hget
      have hunlogged : slot ∉ core.logged := fun hslotLogged => hlogged
        (List.mem_map.mpr ⟨_, List.mem_filter.mpr
          ⟨hentry, decide_eq_true ⟨hslot, hslotLogged⟩⟩, rfl⟩)
      refine mem_retainProposals hstay (?_ : (decided.hash, decided.value) ∈ _)
      refine List.mem_append_left _ (List.mem_map.mpr ⟨_, List.mem_filter.mpr ⟨hentry, ?_⟩, rfl⟩)
      exact decide_eq_true ⟨hslot, hunlogged⟩
    · have hentry : (⟨slot, register⟩ : Σ _ : ℕ, ISR) ∈ core.recorders.entries :=
        AList.mem_lookup_iff.mp hget
      refine mem_retainProposals hstay
        (?_ : (proposal.hash, (core.values.lookup proposal.hash).getD []) ∈ _)
      refine List.mem_append_right _
        (List.mem_map.mpr ⟨proposal, List.mem_filter.mpr ⟨?_, ?_⟩, rfl⟩)
      · exact List.mem_flatMap.mpr ⟨_, List.mem_filter.mpr ⟨hentry, decide_eq_true hslot⟩, hmem⟩
      · exact decide_eq_true hlogged

end Core

/-- The rewritten prefix has the retained proposals. -/
theorem WAL.carries_retained {wal : WAL} {running : RunningCompaction} {hash : ValueHash}
    (hmem : hash ∈ running.retained.keys) :
    Carries (wal.commitCompaction running).entries hash := by
  obtain ⟨value, hget⟩ := (Table.mem_keys_iff _ _).mp hmem
  refine ⟨.proposal hash value, ?_, rfl⟩
  rw [entries_commitCompaction]
  refine List.mem_append_left _ (List.mem_cons_of_mem _ (List.mem_append_left _ ?_))
  exact List.mem_map.mpr ⟨_, AList.mem_lookup_iff.mp hget, rfl⟩

end Rhiza.QuePaxa
