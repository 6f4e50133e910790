import Rhiza.Materializer.Ledger
import Mathlib.Algebra.Order.BigOperators.Group.Finset

/-! # Waiting receipts and counters

Where the receipts of a batch are, in the table or still waiting, makes no difference to what
the batch stands for. The counters count both. There is always room for one more receipt: a
value has at most 64 commands, and the table has no receipt older than the window.
-/

namespace Rhiza.Materializer

open Foundations Commands

variable {site : Site} {slot window : ℕ}

/-! ## Counting receipts -/

def slotsOf (sql : Table ByteString ReceiptRow) : List ℕ := sql.values.map (·.slot)

theorem length_slotsOf (sql : Table ByteString ReceiptRow) :
    (slotsOf sql).length = (usageOf sql).receipts := List.length_map _

/-- What holds of a receipt table up to a slot. -/
structure Tallied (window slot : ℕ) (sql : Table ByteString ReceiptRow) : Prop where
  positive : ∀ recorded ∈ slotsOf sql, 0 < recorded
  late : ∀ recorded ∈ slotsOf sql, recorded ≤ slot
  perSlot : ∀ recorded, (slotsOf sql).count recorded ≤ maxSQLCommandsPerDecidedValue
  bytes : (usageOf sql).resultBytes ≤ maxRetainedSQLResultBytes
  total : (usageOf sql).receipts ≤ maxSQLCommandsPerDecidedValue * window

/-- Receipts of the last window of slots, of which each has at most so many. -/
theorem length_le_of_perSlot {slots : List ℕ} {bound : ℕ} (hwin : 0 < window)
    (hlow : ∀ recorded ∈ slots, slot < recorded + window)
    (hhigh : ∀ recorded ∈ slots, recorded ≤ slot)
    (hper : ∀ recorded, slots.count recorded ≤ bound) :
    slots.length ≤ bound * (window - 1) + slots.count slot := by
  have hsplit := List.length_eq_length_filter_add (l := slots) (· == slot)
  have hcount : (slots.filter (· == slot)).length = slots.count slot := by
    rw [List.count, List.countP_eq_length_filter]
  -- The other slots are among the window - 1 before this one.
  have hothers :
      (slots.filter fun recorded => !(recorded == slot)).length ≤ bound * (window - 1) := by
    rw [← List.sum_toFinset_count_eq_length]
    have hrange : (slots.filter fun recorded => !(recorded == slot)).toFinset ⊆
        Finset.Ico (slot + 1 - window) slot := by
      intro recorded hmem
      rw [List.mem_toFinset, List.mem_filter] at hmem
      have hne : recorded ≠ slot := by simpa using hmem.2
      have := hlow recorded hmem.1
      have := hhigh recorded hmem.1
      rw [Finset.mem_Ico]
      omega
    calc ∑ recorded ∈ (slots.filter fun recorded => !(recorded == slot)).toFinset,
          (slots.filter fun recorded => !(recorded == slot)).count recorded
        ≤ ∑ _recorded ∈ (slots.filter fun recorded => !(recorded == slot)).toFinset, bound := by
          refine Finset.sum_le_sum fun recorded _ => ?_
          exact (List.filter_sublist.count_le recorded).trans (hper recorded)
      _ = (slots.filter fun recorded => !(recorded == slot)).toFinset.card * bound := by
          exact Finset.sum_const_nat fun _ _ => rfl
      _ ≤ (window - 1) * bound := by
          refine Nat.mul_le_mul_right bound ((Finset.card_le_card hrange).trans ?_)
          rw [Nat.card_Ico]
          omega
      _ = bound * (window - 1) := Nat.mul_comm _ _
  omega

variable {sql : Table ByteString ReceiptRow} {requestID : ByteString} {floor : ℕ}

theorem usageOf_insert (hnone : sql.lookup requestID = none) (row : ReceiptRow) :
    usageOf (sql.insert requestID row) = (usageOf sql).add row.sqlResult.length := by
  simp only [usageOf, Table.values_insert_of_absent hnone, List.map_cons, List.sum_cons,
    List.length_cons, SQLReceiptRetentionUsage.add, Nat.add_comm]

theorem slotsOf_insert (hnone : sql.lookup requestID = none) (row : ReceiptRow) :
    slotsOf (sql.insert requestID row) = row.slot :: slotsOf sql := by
  simp only [slotsOf, Table.values_insert_of_absent hnone, List.map_cons]

theorem slotsOf_retain (sql : Table ByteString ReceiptRow) (floor : ℕ) :
    slotsOf (sql.retain (floor ≤ ·.slot)) = (slotsOf sql).filter (floor ≤ ·) := by
  simp only [slotsOf, Table.values_retain, List.filter_map]
  rfl

theorem mem_slotsOf :
    slot ∈ slotsOf sql ↔ ∃ requestID row, sql.lookup requestID = some row ∧ row.slot = slot := by
  simp only [slotsOf, List.mem_map, Table.mem_values_iff]
  constructor
  · rintro ⟨row, ⟨requestID, hrow⟩, hslot⟩
    exact ⟨requestID, row, hrow, hslot⟩
  · rintro ⟨requestID, row, hrow, hslot⟩
    exact ⟨row, ⟨requestID, hrow⟩, hslot⟩

theorem remove_eq_ok {usage : SQLReceiptRetentionUsage} {resultBytes receipts : ℕ}
    (hbytes : resultBytes ≤ usage.resultBytes) (hslips : receipts ≤ usage.receipts) :
    usage.remove resultBytes receipts =
      .ok ⟨usage.resultBytes - resultBytes, usage.receipts - receipts⟩ :=
  if_neg (by omega)

/-- Removing what expires from the counters gives the counters of what is left. -/
theorem remove_expired
    {expired : List ReceiptRow} (hdue : expired = sql.values.filter (·.slot < floor)) :
    (usageOf sql).remove (expired.map (·.sqlResult.length)).sum expired.length =
      .ok (usageOf (sql.retain (floor ≤ ·.slot))) := by
  subst hdue
  have hbytes := List.sum_map_filter_add_sum_map_filter_not
    (fun row : ReceiptRow => row.slot < floor)
    (·.sqlResult.length) sql.values
  have hcount := List.length_eq_length_filter_add (l := sql.values)
    fun row => decide (row.slot < floor)
  have hkeep : (fun row : ReceiptRow => decide ¬ row.slot < floor) =
      fun row => decide (floor ≤ row.slot) := by
    funext row
    simp only [Nat.not_lt]
  have hkeep' : (fun row : ReceiptRow => !decide (row.slot < floor)) =
      fun row => decide (floor ≤ row.slot) := by
    funext row
    rw [← decide_not]
    simp only [Nat.not_lt]
  rw [hkeep] at hbytes
  rw [hkeep'] at hcount
  rw [remove_eq_ok (by simp only [usageOf]; omega) (by simp only [usageOf]; omega)]
  simp only [usageOf, Table.values_retain]
  congr 2 <;> omega

theorem Tallied.retain
    (hsums : Tallied window slot sql) : Tallied window slot (sql.retain (floor ≤ ·.slot)) := by
  have hslots : (slotsOf (sql.retain (floor ≤ ·.slot))).Sublist (slotsOf sql) := by
    rw [slotsOf_retain]
    exact List.filter_sublist
  refine ⟨fun recorded hmem => hsums.positive recorded (hslots.subset hmem),
    fun recorded hmem => hsums.late recorded (hslots.subset hmem),
    fun recorded => (hslots.count_le recorded).trans (hsums.perSlot recorded), ?_, ?_⟩
  · refine le_trans ?_ hsums.bytes
    simp only [usageOf, Table.values_retain]
    exact (List.filter_sublist.map _).sum_le_sum fun _ _ => Nat.zero_le _
  · rw [← length_slotsOf]
    refine hslots.length_le.trans ?_
    rw [length_slotsOf]
    exact hsums.total

theorem Tallied.insert {row : ReceiptRow} (hsums : Tallied window slot sql)
    (hnone : sql.lookup requestID = none) (hslot : row.slot = slot) (hpos : 0 < slot)
    (hper : (slotsOf sql).count slot < maxSQLCommandsPerDecidedValue)
    (hbytes : row.sqlResult.length ≤ maxRetainedSQLResultBytes - (usageOf sql).resultBytes)
    (hroom : (usageOf sql).receipts < maxSQLCommandsPerDecidedValue * window) :
    Tallied window slot (sql.insert requestID row) := by
  have hslots := slotsOf_insert hnone row
  rw [hslot] at hslots
  have husage := usageOf_insert hnone row
  refine ⟨?_, ?_, ?_, ?_, ?_⟩
  · rw [hslots]
    exact List.forall_mem_cons.mpr ⟨hpos, hsums.positive⟩
  · rw [hslots]
    exact List.forall_mem_cons.mpr ⟨le_rfl, hsums.late⟩
  · intro recorded
    rw [hslots, List.count_cons]
    by_cases hsame : slot = recorded
    · subst hsame
      simp only [beq_self_eq_true, if_true]
      omega
    · simp only [beq_iff_eq, hsame, if_false]
      exact hsums.perSlot recorded
  · have := hsums.bytes
    rw [husage, SQLReceiptRetentionUsage.add]
    simp only
    omega
  · rw [husage, SQLReceiptRetentionUsage.add]
    exact hroom

theorem Tallied.later {later : ℕ}
    (hsums : Tallied window slot sql) (hle : slot ≤ later) : Tallied window later sql :=
  { hsums with late := fun recorded hmem => (hsums.late recorded hmem).trans hle }

/-! ## A batch under way -/

/-- The waiting receipts are new, and what is not of this batch was in the table before. -/
structure Working.Valid (base : Store site) (slot : ℕ) (working : Working site) : Prop where
  unwritten : ∀ receipt ∈ working.waiting, receipt.persisted = false
  absent : ∀ receipt ∈ working.waiting, working.store.sql.lookup receipt.requestID = none
  distinct : (working.waiting.map (·.requestID)).Nodup
  written : ∀ receipt ∈ working.pending, receipt.persisted = true →
    working.store.sql.lookup receipt.requestID = some receipt.row
  recent : ∀ receipt ∈ working.pending, base.tip < receipt.row.slot ∧ receipt.row.slot ≤ slot
  old : ∀ requestID row, working.store.sql.lookup requestID = some row →
    (∃ receipt ∈ working.pending, receipt.requestID = requestID) ∨
      base.sql.lookup requestID = some row
  usage : working.store.usage = usageOf working.merged
  tallied : Tallied site.window slot working.merged

namespace Working

variable {base : Store site} {slot : ℕ} {working : Working site}

variable {receipt : PendingSQLReceipt}

theorem mem_waiting_of_pending (hmem : receipt ∈ working.pending) :
    receipt.persisted = true ∨ receipt ∈ working.waiting := by
  rw [← List.takeWhile_append_dropWhile (p := (·.persisted)) (l := working.pending),
    List.mem_append] at hmem
  exact hmem.imp_left List.mem_takeWhile_imp

theorem pending_of_mem_waiting (hmem : receipt ∈ working.waiting) : receipt ∈ working.pending :=
  (List.dropWhile_sublist _).subset hmem

/-- Every receipt of the batch counts as recorded. -/
theorem Valid.lookup_pending (hvalid : working.Valid base slot) (hmem : receipt ∈ working.pending) :
    working.merged.lookup receipt.requestID = some receipt.row := by
  obtain hwrote | hwait := mem_waiting_of_pending hmem
  · have hrow := hvalid.written receipt hmem hwrote
    rw [merged, lookup_insertAll]
    · exact hrow
    · intro other hother heq
      have hnone := hvalid.absent other hother
      rw [heq, hrow] at hnone
      cases hnone
  · exact lookup_insertAll_of_mem hvalid.distinct hwait

/-- What is not of the batch is looked up in the table. -/
theorem lookup_merged {requestID : ByteString}
    (hother : ∀ receipt ∈ working.pending, receipt.requestID ≠ requestID) :
    working.merged.lookup requestID = working.store.sql.lookup requestID :=
  lookup_insertAll fun receipt hmem => hother receipt (pending_of_mem_waiting hmem)

/-- The batch with all of its receipts written. -/
def flushed (working : Working site) : Working site :=
  { working with
    store := { working.store with sql := working.merged }
    pending := working.pending.map ({ · with persisted := true })
    pendingBytes := 0 }

theorem waiting_flushed (working : Working site) : working.flushed.waiting = [] := by
  rw [waiting, List.dropWhile_eq_nil_iff]
  intro receipt hmem
  obtain ⟨original, -, rfl⟩ := List.mem_map.mp hmem
  rfl

theorem merged_flushed (working : Working site) : working.flushed.merged = working.merged := by
  rw [merged, waiting_flushed]
  rfl

theorem Valid.flush (hvalid : working.Valid base slot) :
    ∃ flushed, working.flushPendingSQLReceipts = .ok flushed ∧
      (∀ earlier, flushed.ledger earlier = working.ledger earlier) ∧
      flushed.Valid base slot ∧ flushed.waiting = [] := by
  by_cases hempty : working.waiting = []
  · exact ⟨working, if_pos hempty, fun _ => rfl, hvalid, hempty⟩
  have hinsert := insertReceiptsIfAbsent_eq hvalid.distinct hvalid.absent
  have hflush : working.flushPendingSQLReceipts = .ok working.flushed := by
    rw [flushPendingSQLReceipts, if_neg hempty, hinsert]
    rfl
  have hwait := waiting_flushed working
  have hmerge := merged_flushed working
  refine ⟨working.flushed, hflush, fun earlier => ?_, ?_, hwait⟩
  · rw [ledger, hmerge]
    rfl
  · refine ⟨?_, ?_, ?_, ?_, ?_, ?_, ?_, ?_⟩
    · rw [hwait]
      exact nofun
    · rw [hwait]
      exact nofun
    · rw [hwait]
      exact List.nodup_nil
    · intro receipt hmem _
      obtain ⟨original, horiginal, rfl⟩ := List.mem_map.mp hmem
      have hrow := hvalid.lookup_pending horiginal
      exact hrow
    · intro receipt hmem
      obtain ⟨original, horiginal, rfl⟩ := List.mem_map.mp hmem
      exact hvalid.recent original horiginal
    · intro requestID row hrow
      change working.merged.lookup requestID = some row at hrow
      by_cases hours : ∃ receipt ∈ working.pending, receipt.requestID = requestID
      · obtain ⟨receipt, hmem, hid⟩ := hours
        exact .inl ⟨_, List.mem_map_of_mem hmem, hid⟩
      · rw [lookup_merged fun receipt hmem hid => hours ⟨receipt, hmem, hid⟩] at hrow
        exact .inr ((hvalid.old requestID row hrow).resolve_left hours)
    · rw [hmerge]
      exact hvalid.usage
    · rw [hmerge]
      exact hvalid.tallied

/-- The slots for which there is still a receipt when the slot is applied. -/
def Fresh (slot : ℕ) (working : Working site) : Prop :=
  ∀ recorded ∈ slotsOf working.merged, slot < recorded + site.window

theorem values_insertAll {receipts : List PendingSQLReceipt} {table : Table ByteString ReceiptRow}
    (hdist : (receipts.map (·.requestID)).Nodup)
    (hvoid : ∀ receipt ∈ receipts, table.lookup receipt.requestID = none) :
    (insertAll receipts table).values = (receipts.map (·.row)).reverse ++ table.values := by
  induction receipts generalizing table with
  | nil => rfl
  | cons receipt rest ih =>
    obtain ⟨hfirst, hrest⟩ := List.forall_mem_cons.mp hvoid
    rw [insertAll, List.foldl_cons]
    refine (ih hdist.of_cons (absent_insert hdist hrest)).trans ?_
    rw [Table.values_insert_of_absent hfirst, List.map_cons, List.reverse_cons,
      List.append_assoc, List.singleton_append]

/-- Receipts of this batch are not deleted: it is shorter than the window. -/
theorem Valid.kept (hvalid : working.Valid base slot) (hslot : slot ≤ base.tip + 256)
    (hmem : receipt ∈ working.pending) : slot - site.window + 1 ≤ receipt.row.slot := by
  have := (hvalid.recent receipt hmem).1
  have := site.window_bounds.1
  omega

/-- The batch with the receipts below a slot deleted. -/
def retained (floor : ℕ) (working : Working site) : Working site :=
  { working with
    store := { working.store with
      usage := usageOf (working.merged.retain (floor ≤ ·.slot))
      sql := working.store.sql.retain (floor ≤ ·.slot)
      notify := working.store.notify.retain (floor ≤ ·.slot)
      kv := { working.store.kv with
        receipts := working.store.kv.receipts.retain (floor ≤ ·.slot) } } }

theorem Valid.prune (hvalid : working.Valid base slot) (hslot : slot ≤ base.tip + 256) :
    ∃ pruned, working.pruneReceipts slot = .ok pruned ∧
      (∀ earlier, pruned.ledger earlier = (working.ledger earlier).prune slot) ∧
      pruned.Valid base slot ∧ pruned.Fresh slot := by
  by_cases hearly : slot ≤ site.window
  · refine ⟨working, if_pos hearly, fun earlier => (if_pos hearly).symm, hvalid, ?_⟩
    intro recorded hmem
    have := hvalid.tallied.positive recorded hmem
    omega
  have hkeep : ∀ receipt ∈ working.waiting,
      decide (slot - site.window + 1 ≤ receipt.row.slot) = true := fun receipt hmem =>
    decide_eq_true (hvalid.kept hslot (pending_of_mem_waiting hmem))
  have hmerge : (working.retained (slot - site.window + 1)).merged =
      working.merged.retain (slot - site.window + 1 ≤ ·.slot) := by
    have hretain : (insertAll working.waiting working.store.sql).retain
        (slot - site.window + 1 ≤ ·.slot) = insertAll working.waiting
          (working.store.sql.retain (slot - site.window + 1 ≤ ·.slot)) :=
      retain_insertAll hvalid.distinct hvalid.absent hkeep
    exact hretain.symm
  -- No waiting receipt has expired, so the table shows all that have.
  have hdue : working.store.sql.values.filter (·.slot < slot - site.window + 1) =
      working.merged.values.filter (·.slot < slot - site.window + 1) := by
    rw [merged, values_insertAll hvalid.distinct hvalid.absent, List.filter_append]
    have hnone : (working.waiting.map (·.row)).reverse.filter
        (·.slot < slot - site.window + 1) = [] := by
      rw [List.filter_eq_nil_iff]
      intro row hrow
      obtain ⟨receipt, hmem, rfl⟩ := List.mem_map.mp (List.mem_reverse.mp hrow)
      have := of_decide_eq_true (hkeep receipt hmem)
      simp only [decide_eq_true_eq]
      omega
    rw [hnone, List.nil_append]
  have hprune : working.pruneReceipts slot = .ok (working.retained (slot - site.window + 1)) := by
    rw [pruneReceipts, if_neg hearly]
    simp only [hvalid.usage, remove_expired hdue]
    rfl
  refine ⟨_, hprune, fun earlier => ?_, ?_, ?_⟩
  · rw [Ledger.prune, if_neg hearly, ledger, hmerge]
    rfl
  · refine ⟨hvalid.unwritten, ?_, hvalid.distinct, ?_, hvalid.recent, ?_, ?_, ?_⟩
    · intro receipt hmem
      change (working.store.sql.retain _).lookup _ = none
      rw [Table.lookup_retain, hvalid.absent receipt hmem]
      rfl
    · intro receipt hmem hpersisted
      change (working.store.sql.retain _).lookup _ = _
      rw [Table.lookup_retain, hvalid.written receipt hmem hpersisted, Option.filter_some_pos]
      exact decide_eq_true (hvalid.kept hslot hmem)
    · intro requestID row hrow
      change (working.store.sql.retain _).lookup _ = _ at hrow
      rw [Table.lookup_retain, Option.filter_eq_some_iff] at hrow
      exact hvalid.old requestID row hrow.1
    · rw [hmerge]
      rfl
    · rw [hmerge]
      exact hvalid.tallied.retain
  · intro recorded hmem
    rw [hmerge, slotsOf_retain, List.mem_filter] at hmem
    have := of_decide_eq_true hmem.2
    omega

/-- The batch with one more receipt. -/
def received (slot : ℕ) (requestID : ByteString) (row : ReceiptRow)
    (database : site.engine.Database) (prepared : Prepared) (bytes : ℕ) (working : Working site) :
    Working site :=
  { working with
    store := { working.store with database, usage := working.store.usage.add row.sqlResult.length }
    prepared
    pending := working.pending ++ [⟨requestID, row, false⟩]
    pendingBytes := working.pendingBytes + bytes
    effects := working.effects ++ [⟨slot, .sql, requestID⟩] }

section Received

variable {requestID : ByteString} {row : ReceiptRow} {database : site.engine.Database}
  {prepared : Prepared} {bytes : ℕ}

theorem waiting_received :
    (working.received slot requestID row database prepared bytes).waiting =
      working.waiting ++ [⟨requestID, row, false⟩] := by
  simp only [received, waiting]
  rw [List.dropWhile_append]
  split
  · rename_i hempty
    rw [List.isEmpty_iff.mp hempty]
    rfl
  · rfl

theorem merged_received : (working.received slot requestID row database prepared bytes).merged =
    working.merged.insert requestID row := by
  rw [merged, waiting_received, insertAll, List.foldl_append]
  rfl

/-- Receipts that take too much room are written at once. -/
def flushEarly (working : Working site) : Except ApplyError (Working site) :=
  if maxMutationResultBytes ≤ working.pendingBytes then working.flushPendingSQLReceipts
  else .ok working

theorem Valid.flushEarly (hvalid : working.Valid base slot) :
    ∃ kept, working.flushEarly = .ok kept ∧
      (∀ earlier, kept.ledger earlier = working.ledger earlier) ∧ kept.Valid base slot := by
  unfold Working.flushEarly
  split
  · obtain ⟨flushed, hflush, hbook, hvalid', -⟩ := hvalid.flush
    exact ⟨flushed, hflush, hbook, hvalid'⟩
  · exact ⟨working, rfl, fun _ => rfl, hvalid⟩

/-- What one command adds: at most one receipt, of this slot. -/
structure Extends (slot : ℕ) (working next : Working site) : Prop where
  tip : next.store.tip = working.store.tip
  slots : slotsOf next.merged = slotsOf working.merged ∨
    slotsOf next.merged = slot :: slotsOf working.merged

variable (hvalid : working.Valid base slot) (hlate : base.tip < slot)
  (hnew : working.merged.lookup requestID = none) (hslot : row.slot = slot)
  (hper : (slotsOf working.merged).count slot < maxSQLCommandsPerDecidedValue)
  (hbytes : row.sqlResult.length ≤
    maxRetainedSQLResultBytes - (usageOf working.merged).resultBytes)
  (hroom : (usageOf working.merged).receipts < maxSQLCommandsPerDecidedValue * site.window)
include hvalid hlate hnew hslot hper hbytes hroom

theorem Valid.received :
    (working.received slot requestID row database prepared bytes).Valid base slot := by
  have hother : ∀ receipt ∈ working.pending, receipt.requestID ≠ requestID := by
    intro receipt hmem heq
    have hrow := hvalid.lookup_pending hmem
    rw [heq, hnew] at hrow
    cases hrow
  have htable : working.store.sql.lookup requestID = none := by
    rw [← lookup_merged hother]
    exact hnew
  refine ⟨?_, ?_, ?_, ?_, ?_, ?_, ?_, ?_⟩
  · rw [waiting_received]
    intro receipt hmem
    obtain hold | hnew := List.mem_append.mp hmem
    · exact hvalid.unwritten receipt hold
    · obtain rfl := List.mem_singleton.mp hnew
      rfl
  · rw [waiting_received]
    intro receipt hmem
    obtain hold | hnew := List.mem_append.mp hmem
    · exact hvalid.absent receipt hold
    · obtain rfl := List.mem_singleton.mp hnew
      exact htable
  · rw [waiting_received, List.map_append, List.nodup_append]
    refine ⟨hvalid.distinct, List.nodup_singleton _, ?_⟩
    intro other hmem new hnew heq
    obtain ⟨receipt, hslip, rfl⟩ := List.mem_map.mp hmem
    obtain rfl := List.mem_singleton.mp hnew
    exact hother receipt (pending_of_mem_waiting hslip) heq
  · intro receipt hmem hpersisted
    obtain hold | hnew := List.mem_append.mp hmem
    · exact hvalid.written receipt hold hpersisted
    · obtain rfl := List.mem_singleton.mp hnew
      cases hpersisted
  · intro receipt hmem
    obtain hold | hnew := List.mem_append.mp hmem
    · exact hvalid.recent receipt hold
    · obtain rfl := List.mem_singleton.mp hnew
      exact ⟨hslot ▸ hlate, hslot.le⟩
  · intro requestID' row' hrow
    obtain ⟨receipt, hmem, hid⟩ | hold := hvalid.old requestID' row' hrow
    · exact .inl ⟨receipt, List.mem_append_left _ hmem, hid⟩
    · exact .inr hold
  · rw [merged_received, usageOf_insert hnew, ← hvalid.usage]
    rfl
  · rw [merged_received]
    exact hvalid.tallied.insert hnew hslot (Nat.zero_lt_of_lt hlate) hper hbytes hroom

/-- What a receipt leaves, whether or not the receipts are written with it. -/
theorem Valid.receive :
    ∃ kept, (working.received slot requestID row database prepared bytes).flushEarly = .ok kept ∧
      (∀ earlier, kept.ledger earlier = { working.ledger earlier with
        database, sql := working.merged.insert requestID row
        effects := (working.ledger earlier).effects ++ [⟨slot, .sql, requestID⟩] }) ∧
      kept.Valid base slot ∧ working.Extends slot kept := by
  obtain ⟨kept, hflush, hbook, hvalid'⟩ := (hvalid.received hlate hnew hslot hper hbytes
    hroom).flushEarly
  refine ⟨kept, hflush, fun earlier => ?_, hvalid', congrArg Ledger.tip (hbook []), .inr ?_⟩
  · rw [hbook, ledger, merged_received]
    simp only [Working.received, ledger, List.append_assoc]
  · have hmerge : kept.merged = working.merged.insert requestID row :=
      (congrArg Ledger.sql (hbook [])).trans merged_received
    rw [hmerge, slotsOf_insert hnew, hslot]

end Received

theorem executionReceipt_slot {lib : Library} (engine : Engine lib.Float) (slot : ℕ)
    (fingerprint : ValueHash) (encoded : ByteString)
    (outcome : Except ExecuteFailure (SQLCommandResult × engine.Database)) :
    (executionReceipt engine slot fingerprint encoded outcome).slot = slot ∧
      (executionReceipt engine slot fingerprint encoded outcome).sqlResult = encoded := by
  cases outcome <;> exact ⟨rfl, rfl⟩

/-- The batch and the ledger make the same of a command: it fails in both, or the one that
follows the batch is the ledger of the next batch. -/
def Tracks (base : Store site) (slot : ℕ) (working : Working site)
    (run : Except ApplyError (Working site))
    (settle : Ledger site → Except ApplyError (Ledger site)) : Prop :=
  (∃ message, run = .error (.other message) ∧
    ∀ earlier, settle (working.ledger earlier) = .error (.other message)) ∨
  ∃ next, run = .ok next ∧
    (∀ earlier, settle (working.ledger earlier) = .ok (next.ledger earlier)) ∧
    next.Valid base slot ∧ working.Extends slot next

/-- What there is to keep of an outcome: the result, and the database behind it. -/
def outcomeOf (working : Working site) (outcome : site.Outcome) :
    SQLCommandResult × site.engine.Database :=
  outcome.toOption.getD (noResult, working.store.database)

section Keep

variable {fingerprint : ValueHash} {command : SQLCommand site.lib.Float} {prepared : Prepared}
  {outcome : site.Outcome} {encoded : ByteString}

section Keep

variable
  (henc : encodeSQLResult (if keepsResult command then (working.outcomeOf outcome).1 else
    noResult) = .ok encoded)
  (hempty : working.store.usage.admits 0 site.window = true)
include henc hempty

theorem keepReceipt_fits (hfits : working.store.usage.admits encoded.length site.window = true) :
    working.keepReceipt slot fingerprint command prepared outcome =
      (working.received slot command.requestID
        (executionReceipt site.engine.toEngine slot fingerprint encoded outcome)
        (working.outcomeOf outcome).2 prepared (sqlResultWorkingBytes
          (if keepsResult command then (working.outcomeOf outcome).1
            else noResult))).flushEarly := by
  rw [outcomeOf] at henc
  simp only [keepReceipt, henc, apply_ok, ok_bind, ensure, if_pos hempty, hfits, if_true]
  rfl

theorem keepReceipt_rejects
    (hfits : ¬ working.store.usage.admits encoded.length site.window = true) :
    working.keepReceipt slot fingerprint command prepared outcome =
      (working.received slot command.requestID (rejectedReceipt slot fingerprint)
        working.store.database prepared (sqlResultWorkingBytes noResult)).flushEarly := by
  rw [outcomeOf] at henc
  simp only [keepReceipt, henc, apply_ok, ok_bind, ensure, if_pos hempty, if_neg hfits]
  rfl

end Keep

/-- Keeping a receipt in the batch is keeping it in the ledger. -/
theorem Valid.keepReceipt (hvalid : working.Valid base slot) (hlate : base.tip < slot)
    (hid : command.requestID ≠ []) (hnew : working.merged.lookup command.requestID = none)
    (hper : (slotsOf working.merged).count slot < maxSQLCommandsPerDecidedValue)
    (hroom : (usageOf working.merged).receipts < maxSQLCommandsPerDecidedValue * site.window) :
    working.Tracks base slot (working.keepReceipt slot fingerprint command prepared outcome)
      (fun ledger => do
        let state ← apply (Materializer.keepReceipt site.engine.toEngine site.window slot
          fingerprint command ledger.materialized (working.outcomeOf outcome).1
          (working.outcomeOf outcome).2
          fun encoded => executionReceipt site.engine.toEngine slot fingerprint encoded outcome)
        .ok (ledger.concluded slot command.requestID state)) := by
  have hempty : working.store.usage.admits 0 site.window = true := by
    rw [hvalid.usage, SQLReceiptRetentionUsage.admits, decide_eq_true_iff]
    exact ⟨hvalid.tallied.bytes, hvalid.tallied.total, hroom, Nat.zero_le _⟩
  have husage : ∀ earlier, (working.ledger earlier).materialized.usage = working.store.usage :=
    fun _ => hvalid.usage.symm
  cases henc : encodeSQLResult
      (if keepsResult command then (working.outcomeOf outcome).1 else noResult) with
  | error message =>
    refine .inl ⟨message, ?_, fun earlier => ?_⟩
    · rw [outcomeOf] at henc
      simp only [Working.keepReceipt, henc]
      rfl
    · simp only [Materializer.keepReceipt, henc]
      rfl
  | ok encoded =>
    right
    by_cases hfits : working.store.usage.admits encoded.length site.window = true
    · obtain ⟨hslot, hout⟩ := executionReceipt_slot site.engine.toEngine slot fingerprint
        encoded outcome
      have hbytes : encoded.length ≤
          maxRetainedSQLResultBytes - (usageOf working.merged).resultBytes := by
        rw [hvalid.usage, SQLReceiptRetentionUsage.admits, decide_eq_true_iff] at hfits
        exact hfits.2.2.2
      rw [keepReceipt_fits henc hempty hfits]
      obtain ⟨next, hkeep, hbook, hvalid', hgrow⟩ :=
        hvalid.receive hlate hnew hslot hper (by rw [hout]; exact hbytes) hroom
      refine ⟨next, hkeep, fun earlier => ?_, hvalid', hgrow⟩
      rw [hbook]
      simp only [Materializer.keepReceipt, husage, henc, ok_bind, require, hempty, hfits, if_true,
        apply_ok, Ledger.concluded, if_neg hid]
      rfl
    · rw [keepReceipt_rejects henc hempty hfits]
      have hslot : (rejectedReceipt slot fingerprint).slot = slot := rfl
      have hout : (rejectedReceipt slot fingerprint).sqlResult.length ≤
        maxRetainedSQLResultBytes - (usageOf working.merged).resultBytes := Nat.zero_le _
      obtain ⟨next, hkeep, hbook, hvalid', hgrow⟩ :=
        hvalid.receive hlate hnew hslot hper hout hroom
      refine ⟨next, hkeep, fun earlier => ?_, hvalid', hgrow⟩
      rw [hbook]
      simp only [Materializer.keepReceipt, husage, henc, ok_bind, require, hempty, hfits, if_true,
        Ledger.concluded, if_neg hid]
      rfl

end Keep

end Working

end Rhiza.Materializer
