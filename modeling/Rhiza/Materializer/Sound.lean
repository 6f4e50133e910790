import Rhiza.Materializer.Failing
import Rhiza.Materializer.Once

/-! # What batches and restarts keep

Between batches the counters count the stored receipts, the filter has every receipt that has
not expired, and what is cached of a request id is what is stored. A batch that is applied
settles slots of the log, and opening the database again changes no table.
-/

namespace Rhiza.Materializer

open Foundations Commands

variable {site : Site}

/-- The ledger behind the tables, after the given effects. -/
def Store.ledger (effects : List Effect) (store : Store site) : Ledger site :=
  { database := store.database, kv := store.kv, notify := store.notify, sql := store.sql
    tip := store.tip, tipHash := store.tipHash, stateTip := store.stateTip, effects }

namespace Ledger

variable {allowed : Allowed site} {log : ℕ → ByteString} {ledger ledger' : Ledger site} {slot : ℕ}

/-- The receipts are those of accepted commands. -/
def Proper (ledger : Ledger site) : Prop :=
  ∀ requestID row, ledger.sql.lookup requestID = some row →
    row.Formed ∧ requestID ≠ [] ∧ requestID.length ≤ maxRequestIDBytes

theorem Proper.settlesSQL {command : SQLCommand site.lib.Float}
    (hprop : ledger.Proper) (h : SettlesSQL allowed slot command ledger ledger') :
    ledger'.Proper := by
  obtain ⟨hcheck, fingerprint, -, hpaid⟩ := h
  split at hpaid
  · rw [hpaid]
    exact hprop
  obtain ⟨outcome, -, hwrap⟩ := hpaid
  obtain ⟨-, database, rfl⟩ | ⟨hid, row, database, -, hform, rfl⟩ := conclude_eq_ok hwrap
  · exact hprop
  have hlen : command.requestID.length ≤ maxRequestIDBytes := by
    simp only [validateSQLCommand, bind_eq_ok] at hcheck
    obtain ⟨_, hlen, -⟩ := hcheck
    exact require_eq_ok.mp hlen
  intro requestID stored hbox
  simp only [Table.lookup_insert_eq] at hbox
  split at hbox
  · rename_i heq
    cases hbox
    rw [heq]
    exact ⟨hform, hid, hlen⟩
  · exact hprop requestID stored hbox

theorem Proper.settlesAllSQL {commands : List (SQLCommand site.lib.Float)}
    (hprop : ledger.Proper) (h : SettlesAllSQL allowed slot commands ledger ledger') :
    ledger'.Proper := by
  induction commands generalizing ledger with
  | nil =>
    obtain rfl : ledger' = ledger := h
    exact hprop
  | cons command rest ih =>
    obtain ⟨middle, hfirst, hrest⟩ := h
    exact ih (hprop.settlesSQL hfirst) hrest

theorem settleAllKV_sql {commands : List KVCommand}
    (h : commands.foldlM (fun ledger command => ledger.settleKV slot command) ledger =
      .ok ledger') : ledger'.sql = ledger.sql := by
  induction commands generalizing ledger with
  | nil =>
    cases h
    rfl
  | cons command rest ih =>
    rw [List.foldlM_cons, bind_eq_ok] at h
    obtain ⟨middle, hfirst, hrest⟩ := h
    simp only [settleKV, bind_eq_ok] at hfirst
    obtain ⟨kv, -, hmid⟩ := hfirst
    rw [ih hrest]
    cases hmid
    rfl

theorem settleNotify_sql {command : NotifyCommand}
    (h : ledger.settleNotify slot command = .ok ledger') : ledger'.sql = ledger.sql := by
  simp only [settleNotify, bind_eq_ok] at h
  obtain ⟨_, -, h⟩ := h
  split at h <;> cases h <;> rfl

theorem Proper.step (hprop : ledger.Proper) (hstep : Step allowed log ledger ledger') :
    ledger'.Proper := by
  obtain ⟨payload, settled, -, hpaid, rfl⟩ := hstep
  have hdue : (ledger.expire (ledger.tip + 1) payload).Proper := by
    unfold expire prune
    split
    · exact hprop
    split
    · exact hprop
    · intro requestID row hrow
      simp only [Table.lookup_retain] at hrow
      exact hprop requestID row (Option.filter_eq_some_iff.mp hrow).1
  change Proper settled
  cases payload with
  | sql => exact hdue.settlesAllSQL hpaid
  | kv =>
    rw [Proper, settleAllKV_sql hpaid]
    exact hdue
  | notify =>
    rw [Proper, settleNotify_sql hpaid]
    exact hdue
  | graph =>
    rw [Proper, (hpaid : settled = _)]
    exact hdue
  | control =>
    rw [Proper, (hpaid : settled = _)]
    exact hdue

theorem steps_proper (hsteps : Relation.ReflTransGen (Step allowed log) ledger ledger')
    (hprop : ledger.Proper) : ledger'.Proper := by
  induction hsteps with
  | refl => exact hprop
  | tail _ hlast ih => exact ih.step hlast

theorem steps_passed (hsteps : Relation.ReflTransGen (Step allowed log) ledger ledger')
    (hpass : ledger.onceLog.Passed site.window (site.requests log) ledger.tip) :
    ledger'.onceLog.Passed site.window (site.requests log) ledger'.tip := by
  induction hsteps with
  | refl => exact hpass
  | tail _ hlast ih => exact hlast.passed ih

theorem steps_keep {key : RequestKey} (row : ReceiptRow × Bool)
    (hsteps : Relation.ReflTransGen (Step allowed log) ledger ledger') (hpos : 0 < row.1.slot)
    (hlive : ledger'.tip < row.1.slot + site.window) (hrow : ledger.receipt key = some row) :
    ledger'.receipt key = some row := by
  induction hsteps with
  | refl => exact hrow
  | tail _ hlast ih =>
    rw [hlast.tip] at hlive
    exact hlast.keeps hpos hlive (ih (by omega))

end Ledger

/-! ## Batches -/

namespace Working

variable {base : Store site} {bloom : SQLReceiptBloom} {working next : Working site}
  {execution : Execution site} {log : ℕ → ByteString} {first count : ℕ}

theorem applyValue_tip {slot : ℕ} {value : ByteString}
    (h : working.applyValue execution bloom slot value = .ok next) : next.store.tip = slot := by
  simp only [applyValue, bind_eq_ok] at h
  obtain ⟨payload, -, expired, -, applied, -, hnext⟩ := h
  cases hnext
  rfl

theorem applyDecisions_first (hcount : 0 < count)
    (h : working.applyDecisions execution bloom (slice log first count) = .ok next) :
    first ≤ working.store.tip + 1 := by
  obtain ⟨count, rfl⟩ := Nat.exists_eq_succ_of_ne_zero hcount.ne'
  rw [Nat.succ_eq_add_one, slice_succ] at h
  simp only [applyDecisions] at h
  split at h
  · omega
  split at h
  · cases h
  · omega

/-- A batch that is applied gets to the last of its slots. -/
theorem applyDecisions_tip (hfirst : first ≤ working.store.tip + 1)
    (h : working.applyDecisions execution bloom (slice log first count) = .ok next) :
    next.store.tip + 1 = max (working.store.tip + 1) (first + count) := by
  induction count generalizing working first with
  | zero =>
    cases h
    omega
  | succ count ih =>
    rw [slice_succ] at h
    simp only [applyDecisions] at h
    split at h
    · split at h
      · cases h
      · rw [ih (by omega) h]
        omega
    split at h
    · cases h
    simp only [bind_eq_ok] at h
    obtain ⟨middle, hvalue, hrest⟩ := h
    have htip := applyValue_tip hvalue
    rw [ih (by omega) hrest]
    omega

end Working

namespace State

variable {m next : State site}

/-- The state of a materializer between batches. -/
structure Sound (m : State site) : Prop where
  usage : m.store.usage = usageOf m.store.sql
  tallied : Tallied site.window m.store.tip m.store.sql
  marked : m.store.MarkedIn m.bloom
  cached : ∀ requestID row stored, m.recent.lookup requestID = some row →
    m.store.sql.lookup requestID = some stored → row = { stored with sqlResult := [] }
  kept : ∀ requestID row, m.recent.lookup requestID = some row →
    m.store.tip < row.slot + site.window → (m.store.sql.lookup requestID).isSome

theorem Sound.begin (hsound : m.Sound) : m.begin.Between m.store m.bloom := by
  have hmerge : m.begin.merged = m.store.sql := rfl
  refine ⟨⟨nofun, nofun, .nil, nofun, nofun, fun _ _ => .inr, ?_, ?_⟩, le_rfl, hsound.tallied,
    hsound.marked⟩
  · rw [hmerge]
    exact hsound.usage
  · rw [hmerge]
    exact hsound.tallied

theorem begin_ledger (m : State site) (earlier : List Effect) :
    m.begin.ledger earlier = m.store.ledger earlier := by
  simp only [Working.ledger, begin, Store.ledger, List.append_nil]
  rfl

/-- What the cache has of a request id after a batch is from the batch, or from before if the
batch has no receipt for the id. -/
theorem lookup_remember {recent : Table ByteString ReceiptRow} {pending : List PendingSQLReceipt}
    {requestID : ByteString} {row : ReceiptRow}
    (h : (remember recent pending).lookup requestID = some row) :
    (∃ receipt ∈ pending, receipt.requestID = requestID ∧
        row = { receipt.row with sqlResult := [] }) ∨
      (∀ receipt ∈ pending, receipt.requestID ≠ requestID) ∧
        recent.lookup requestID = some row := by
  have hfold : ∀ (kept : List PendingSQLReceipt) (table : Table ByteString ReceiptRow),
      (kept.foldl (fun recent receipt =>
        recent.insert receipt.requestID { receipt.row with sqlResult := [] }) table).lookup
          requestID = some row →
      (∃ receipt ∈ kept, receipt.requestID = requestID ∧
          row = { receipt.row with sqlResult := [] }) ∨
        (∀ receipt ∈ kept, receipt.requestID ≠ requestID) ∧ table.lookup requestID = some row := by
    intro kept
    induction kept with
    | nil => exact fun table htable => .inr ⟨nofun, htable⟩
    | cons receipt rest ih =>
      intro table htable
      obtain ⟨other, hmem, hother⟩ | ⟨hrest, htable⟩ := ih _ htable
      · exact .inl ⟨other, List.mem_cons_of_mem _ hmem, hother⟩
      rw [Table.lookup_insert_eq] at htable
      split at htable
      · rename_i heq
        exact .inl ⟨receipt, List.mem_cons_self, heq.symm, (Option.some_inj.mp htable).symm⟩
      · rename_i hne
        exact .inr ⟨List.forall_mem_cons.mpr ⟨Ne.symm hne, hrest⟩, htable⟩
  unfold remember at h
  obtain ⟨receipt, hmem, hslip⟩ | ⟨hnone, htable⟩ := hfold _ _ h
  · exact .inl ⟨receipt, List.mem_of_mem_drop hmem, hslip⟩
  right
  split at htable
  · cases htable
  rename_i hroom
  -- The cache is only kept when all receipts of the batch go into it.
  have hnonempty : recent.entries ≠ [] := by
    intro hempty
    have hmem := AList.mem_lookup_iff.mp (Option.mem_def.mpr htable)
    rw [hempty] at hmem
    cases hmem
  have hpos := List.length_pos_iff.mpr hnonempty
  have hall : pending.length - recentSQLReceiptLimit = 0 := by
    rw [List.length_drop] at hroom
    omega
  rw [hall, List.drop_zero] at hnone
  exact ⟨hnone, htable⟩

variable {execution : Execution site} {allowed : Ledger.Allowed site} {log : ℕ → ByteString}
  {first count : ℕ} {effects : List Effect}

section Batch

variable (h : m.applyBatch execution (slice log first count) = .ok (next, effects))
include h

/-- A batch that is applied, in its parts. -/
theorem applyBatch_eq_ok :
    next = m ∧ effects = [] ∧ count = 0 ∨
      0 < count ∧ (∀ slot, first ≤ slot → slot < first + count → site.policy (log slot) = .ok ()) ∧
        ∃ working flushed, m.begin.applyDecisions execution m.bloom (slice log first count) =
            .ok working ∧ working.flushPendingSQLReceipts = .ok flushed ∧
          next = { store := flushed.store
                   bloom := m.bloom.addAll site.codec site.window
                     (flushed.pending.map fun receipt => (receipt.requestID, receipt.row.slot))
                   recent := remember m.recent flushed.pending } ∧
          effects = flushed.effects := by
  simp only [applyBatch, bind_eq_ok, apply_eq_ok] at h
  obtain ⟨_, hrule, h⟩ := h
  split at h
  · rename_i hempty
    cases h
    refine .inl ⟨rfl, rfl, ?_⟩
    simpa [slice] using hempty
  rename_i hne
  right
  simp only [bind_eq_ok] at h
  obtain ⟨working, hwork, flushed, hflushed, _, -, hnext⟩ := h
  cases hnext
  refine ⟨?_, ?_, working, flushed, hwork, hflushed, rfl, rfl⟩
  · apply Nat.pos_of_ne_zero
    rintro rfl
    exact hne rfl
  · intro slot hle hlt
    refine requireAll_eq_ok.mp hrule (slot, log slot) (List.mem_map.mpr ⟨slot, ?_, rfl⟩)
    rw [List.mem_range'_1]
    exact ⟨hle, hlt⟩

theorem applyBatch_tip :
    next = m ∧ count = 0 ∨ first ≤ m.store.tip + 1 ∧
      next.store.tip + 1 = max (m.store.tip + 1) (first + count) := by
  obtain ⟨hsame, -, hcount⟩ | ⟨hcount, -, working, flushed, hwork, hflushed, rfl, -⟩ :=
    applyBatch_eq_ok h
  · exact .inl ⟨hsame, hcount⟩
  have hfirst := Working.applyDecisions_first hcount hwork
  have hlast := Working.applyDecisions_tip hfirst hwork
  have htip : flushed.store.tip = working.store.tip := by
    unfold Working.flushPendingSQLReceipts at hflushed
    split at hflushed
    · cases hflushed
      rfl
    · simp only [bind_eq_ok] at hflushed
      obtain ⟨sql, -, hflushed⟩ := hflushed
      cases hflushed
      rfl
  exact .inr ⟨hfirst, htip ▸ hlast⟩

end Batch

theorem Sound.marked_addAll {flushed : Working site} (hsound : m.Sound)
    (hvalid : flushed.Valid m.store flushed.store.tip) (hmerge : flushed.merged =
      flushed.store.sql)
    (htip : flushed.store.tip ≤ m.store.tip + 256) (hle : m.store.tip ≤ flushed.store.tip) :
    flushed.store.MarkedIn (m.bloom.addAll site.codec site.window
      (flushed.pending.map fun receipt => (receipt.requestID, receipt.row.slot))) := by
  have hwin := site.window_bounds.1
  have hentry : ∀ entry ∈ flushed.pending.map fun receipt => (receipt.requestID, receipt.row.slot),
      m.store.tip < entry.2 ∧ entry.2 ≤ flushed.store.tip := by
    intro entry hmem
    obtain ⟨receipt, hslip, rfl⟩ := List.mem_map.mp hmem
    exact hvalid.recent receipt hslip
  intro requestID row hrow hlive
  by_cases hours : ∃ receipt ∈ flushed.pending, receipt.requestID = requestID
  · obtain ⟨receipt, hmem, rfl⟩ := hours
    have hpend := hvalid.lookup_pending hmem
    rw [hmerge, hrow] at hpend
    cases hpend
    have hbounds := hvalid.recent receipt hmem
    refine SQLReceiptBloom.marked_addAll (List.mem_map.mpr ⟨receipt, hmem, rfl⟩) ?_
    intro entry hentry'
    have := hentry entry hentry'
    exact ⟨epoch_near (by omega) (by omega), epoch_near (by omega) (by omega)⟩
  · have hbase := (hvalid.old requestID row hrow).resolve_left hours
    have hlate := hsound.tallied.late row.slot (mem_slotsOf.mpr ⟨requestID, row, hbase, rfl⟩)
    refine (hsound.marked requestID row hbase (by omega)).addAll ?_
    intro entry hentry'
    have := hentry entry hentry'
    exact ⟨epoch_near (by omega) (by omega), epoch_near (by omega) (by omega)⟩

/-- A batch that is applied settles slots of the log. -/
theorem Sound.applyBatch (hsound : m.Sound) (hcount : count ≤ 256)
    (hmay : m.begin.Meets execution m.bloom (Working.Permitted execution allowed)
      (slice log first count))
    (h : m.applyBatch execution (slice log first count) = .ok (next, effects)) :
    next.Sound ∧ ∀ earlier, Relation.ReflTransGen (Ledger.Step allowed log)
      (m.store.ledger earlier) (next.store.ledger (earlier ++ effects)) := by
  obtain ⟨rfl, rfl, -⟩ | ⟨hpos, -, working, flushed, hwork, hflushed, rfl, rfl⟩ :=
    applyBatch_eq_ok h
  · refine ⟨hsound, fun earlier => ?_⟩
    rw [List.append_nil]
  have hlen : m.begin.store.tip + (slice log first count).length ≤ m.store.tip + 256 := by
    rw [length_slice]
    exact Nat.add_le_add_left hcount m.store.tip
  obtain ⟨hgap, hsteps⟩ := hsound.begin.applyDecisions (fun _ => eq_of_mem_slice) hlen hmay hwork
  have htip : working.store.tip ≤ m.store.tip + 256 := by
    have hfirst := Working.applyDecisions_first hpos hwork
    have hlast := Working.applyDecisions_tip hfirst hwork
    have hbegin : m.begin.store.tip = m.store.tip := rfl
    rw [hbegin] at hfirst hlast
    omega
  obtain ⟨flushed', hflush, hsame, hvalid, hwait⟩ := hgap.valid.flush
  cases hflushed.symm.trans hflush
  have hmerge : flushed.merged = flushed.store.sql := by
    rw [Working.merged, hwait]
    rfl
  have htip' : flushed.store.tip = working.store.tip := congrArg Ledger.tip (hsame [])
  rw [← htip'] at hvalid htip
  have hle : m.store.tip ≤ flushed.store.tip := by
    rw [htip']
    exact hgap.base_le
  have hbook : ∀ earlier, Relation.ReflTransGen (Ledger.Step allowed log)
      (m.store.ledger earlier) (flushed.store.ledger (earlier ++ flushed.effects)) := by
    intro earlier
    have hfinal : flushed.store.ledger (earlier ++ flushed.effects) = working.ledger earlier := by
      rw [← hsame earlier, Working.ledger, hmerge]
      rfl
    rw [hfinal, ← begin_ledger]
    exact hsteps earlier
  refine ⟨⟨?_, ?_, hsound.marked_addAll hvalid hmerge htip hle, ?_, ?_⟩, hbook⟩
  · rw [← hmerge]
    exact hvalid.usage
  · rw [← hmerge]
    exact hvalid.tallied
  · intro requestID row stored hrow hbox
    dsimp only at hrow
    obtain ⟨receipt, hmem, rfl, rfl⟩ | ⟨hnone, hold⟩ := lookup_remember hrow
    · have hpend := hvalid.lookup_pending hmem
      rw [hmerge, hbox] at hpend
      rw [Option.some_inj.mp hpend]
    · refine hsound.cached requestID row stored hold ?_
      refine (hvalid.old requestID stored hbox).resolve_left ?_
      rintro ⟨receipt, hmem, hid⟩
      exact hnone receipt hmem hid
  · intro requestID row hrow hlive
    dsimp only at hrow
    obtain ⟨receipt, hmem, rfl, rfl⟩ | ⟨-, hold⟩ := lookup_remember hrow
    · have hpend := hvalid.lookup_pending hmem
      rw [hmerge] at hpend
      exact Option.isSome_of_eq_some hpend
    · have hlive' : m.store.tip < row.slot + site.window := lt_of_le_of_lt hle hlive
      obtain ⟨stored, hbox⟩ := Option.isSome_iff_exists.mp (hsound.kept requestID row hold hlive')
      have hslot : row.slot = stored.slot := by
        rw [hsound.cached requestID row stored hold hbox]
      have hpos : 0 < stored.slot := hsound.tallied.positive stored.slot
        (mem_slotsOf.mpr ⟨requestID, stored, hbox, rfl⟩)
      have hslip : (m.store.ledger []).receipt (.sql, requestID) = some (stored, false) := by
        simp only [Ledger.receipt, receiptRow, Store.ledger, hbox, Option.map_some]
      rw [hslot] at hlive
      have hkept := Ledger.steps_keep (stored, false) (hbook []) hpos hlive hslip
      simp only [Ledger.receipt, receiptRow, Option.map_eq_some_iff] at hkept
      obtain ⟨kept, hkept, -⟩ := hkept
      exact Option.isSome_of_eq_some hkept

end State

end Rhiza.Materializer
