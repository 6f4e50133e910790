import Rhiza.Foundations.OnceWindow
import Rhiza.Materializer.Settled

/-! # Requests take effect once

Seen through the slots of the receipts alone, the ledger is a log in which requests take effect
once within the idempotency window; the kinds of mutations have receipts of their own. A
database that is opened must pass a check of its receipts and counters; the filter is then
built from the receipts that have not expired, and the cache of recent receipts is empty.
-/

namespace Rhiza.Materializer

open Foundations Commands

abbrev RequestKey := MutationKind × ByteString

/-- The requests of a value that have an id. -/
def requestKeys {Float : Type} : Payload Float → List RequestKey
  | .sql commands => (commands.filter (·.requestID ≠ [])).map fun command =>
    (.sql, command.requestID)
  | .kv commands => commands.map fun command => (.kv, command.requestID)
  | .notify command => [(.notify, command.requestID)]
  | .graph | .control => []

/-- The requests that the log has at a slot. -/
def Site.requests (site : Site) (log : ℕ → ByteString) (slot : ℕ) : List RequestKey :=
  match site.decode (log slot) with
  | .ok payload => requestKeys payload
  | .error _ => []

/-- The row that a KV command leaves, with its `applied` column. -/
def KVReceipt.row (receipt : KVReceipt) : ReceiptRow × Bool :=
  ({ fingerprint := receipt.fingerprint, slot := receipt.slot, committed := true
     errorCode := .none, rowsAffected := 0, lastInsertID := 0, sqlResult := [] }, receipt.applied)

def NotifyReceipt.row (receipt : NotifyReceipt) : ReceiptRow × Bool :=
  ({ fingerprint := receipt.fingerprint, slot := receipt.slot, committed := true
     errorCode := .none, rowsAffected := 0, lastInsertID := 0, sqlResult := [] }, true)

/-- The row of the receipt table with the given kind and request id. -/
def receiptRow (sql : Table ByteString ReceiptRow) (kv : Table ByteString KVReceipt)
    (notify : Table ByteString NotifyReceipt) : RequestKey → Option (ReceiptRow × Bool)
  | (.sql, requestID) => (sql.lookup requestID).map (·, false)
  | (.kv, requestID) => (kv.lookup requestID).map KVReceipt.row
  | (.notify, requestID) => (notify.lookup requestID).map NotifyReceipt.row

variable {site : Site}

namespace Ledger

def receipt (ledger : Ledger site) : RequestKey → Option (ReceiptRow × Bool) :=
  receiptRow ledger.sql ledger.kv.receipts ledger.notify

def onceLog (ledger : Ledger site) : OnceLog RequestKey where
  recorded key := (ledger.receipt key).map (·.1.slot)
  effects := ledger.effects.map fun effect => (effect.slot, effect.kind, effect.requestID)

/-! ## Expiry -/

theorem receipt_prune (slot : ℕ) (ledger : Ledger site) (key : RequestKey) :
    (ledger.prune slot).receipt key =
      (ledger.receipt key).filter (OnceLog.floor site.window slot ≤ ·.1.slot) := by
  unfold prune OnceLog.floor
  split
  · cases ledger.receipt key <;> simp [Option.filter]
  · obtain ⟨kind, requestID⟩ := key
    cases kind <;>
      simp only [receipt, receiptRow, Table.lookup_retain] <;>
      rw [Option.filter_map] <;> rfl

theorem onceLog_prune (slot : ℕ) (ledger : Ledger site) :
    (ledger.prune slot).onceLog = ledger.onceLog.expire site.window slot := by
  apply OnceLog.ext
  · intro key
    simp only [onceLog, OnceLog.expire, receipt_prune, Option.filter_map]
    rfl
  · unfold prune
    split <;> rfl

/-! ## Commands -/

/-- A request finds its receipt, or takes effect and leaves one. -/
inductive Visits (slot : ℕ) (key : RequestKey) (ledger ledger' : Ledger site) : Prop where
  | found (hslip : (ledger.receipt key).isSome) (hsame : ledger' = ledger)
  | takes (row : ReceiptRow × Bool) (hvoid : ledger.receipt key = none)
      (hslot : row.1.slot = slot)
      (hslip : ∀ other, ledger'.receipt other =
        if other = key then some row else ledger.receipt other)
      (heffects : ledger'.effects = ledger.effects ++ [⟨slot, key.1, key.2⟩])

/-- A command without a request id leaves no trace among the receipts. -/
structure Leaves (ledger ledger' : Ledger site) : Prop where
  receipt : ∀ key, ledger'.receipt key = ledger.receipt key
  effects : ledger'.effects = ledger.effects

/-- Receipts stay. -/
def Keeps (ledger ledger' : Ledger site) : Prop :=
  ∀ key row, ledger.receipt key = some row → ledger'.receipt key = some row

variable {slot : ℕ} {key : RequestKey} {ledger ledger' : Ledger site}

theorem Leaves.onceLog (hleaves : ledger.Leaves ledger') : ledger'.onceLog = ledger.onceLog := by
  apply OnceLog.ext
  · intro key
    simp only [Ledger.onceLog, hleaves.receipt key]
  · simp only [Ledger.onceLog, hleaves.effects]

theorem Visits.onceLog (hsee : ledger.Visits slot key ledger') :
    ledger'.onceLog = ledger.onceLog.visit slot key := by
  cases hsee with
  | found hslip hsame =>
    obtain ⟨row, hrow⟩ := Option.isSome_iff_exists.mp hslip
    have hrec : ledger.onceLog.recorded key = some row.1.slot := by
      simp only [Ledger.onceLog, hrow, Option.map_some]
    rw [OnceLog.visit_of_some hrec, hsame]
  | takes row hvoid hslot hslip heffects =>
    have hrec : ledger.onceLog.recorded key = none := by
      simp only [Ledger.onceLog, hvoid, Option.map_none]
    rw [OnceLog.visit_of_none hrec]
    apply OnceLog.ext
    · intro other
      simp only [Ledger.onceLog, hslip other, Function.update_apply]
      split
      · rw [Option.map_some, hslot]
      · rfl
    · simp [Ledger.onceLog, heffects]

theorem Visits.keeps (hsee : ledger.Visits slot key ledger') : ledger.Keeps ledger' := by
  intro other row hrow
  cases hsee with
  | found hslip hsame =>
    rw [hsame]
    exact hrow
  | takes new hvoid hslot hslip heffects =>
    have hne : other ≠ key := by
      rintro rfl
      rw [hvoid] at hrow
      cases hrow
    rw [hslip other, if_neg hne]
    exact hrow

theorem Keeps.trans {middle : Ledger site} (hfirst : ledger.Keeps middle)
    (htwo : middle.Keeps ledger') : ledger.Keeps ledger' := by
  intro key row hrow
  exact htwo key row (hfirst key row hrow)

variable {allowed : Allowed site}

theorem settlesSQL_cases {command : SQLCommand site.lib.Float}
    (h : SettlesSQL allowed slot command ledger ledger') :
    command.requestID = [] ∧ ledger.Leaves ledger' ∨
      command.requestID ≠ [] ∧ ledger.Visits slot (.sql, command.requestID) ledger' := by
  obtain ⟨-, fingerprint, -, hpaid⟩ := h
  split at hpaid
  · rename_i hseen
    right
    exact ⟨hseen.1, .found (by simpa [receipt, receiptRow] using hseen.2) hpaid⟩
  rename_i hseen
  obtain ⟨outcome, -, hwrap⟩ := hpaid
  obtain ⟨hid, database, rfl⟩ | ⟨hid, row, database, hslot, -, rfl⟩ := conclude_eq_ok hwrap
  · exact .inl ⟨hid, ⟨fun _ => rfl, rfl⟩⟩
  right
  have hvoid : ledger.sql.lookup command.requestID = none :=
    Option.not_isSome_iff_eq_none.mp fun hsome => hseen ⟨hid, hsome⟩
  refine ⟨hid, .takes (row, false) ?_ hslot ?_ rfl⟩
  · simp only [receipt, receiptRow, hvoid, Option.map_none]
  · rintro ⟨kind, requestID⟩
    cases kind with
    | sql =>
      simp only [receipt, receiptRow, Table.lookup_insert_eq, Prod.mk.injEq, true_and]
      split <;> rfl
    | kv | notify => simp [receipt, receiptRow]

theorem settleKV_visits {command : KVCommand} (h : ledger.settleKV slot command = .ok ledger') :
    ledger.Visits slot (.kv, command.requestID) ledger' := by
  simp only [settleKV, bind_eq_ok, apply_eq_ok] at h
  obtain ⟨kv, hkv, hnext⟩ := h
  cases hnext
  simp only [applyKV, bind_eq_ok] at hkv
  obtain ⟨_, -, hkv⟩ := hkv
  by_cases hknown : (ledger.kv.receipts.lookup command.requestID).isSome
  · rw [if_pos hknown] at hkv
    cases hkv
    refine .found (by simpa [receipt, receiptRow] using hknown) ?_
    rw [if_pos hknown, List.append_nil]
  · rw [if_neg hknown] at hkv
    cases hkv
    have hvoid := Option.not_isSome_iff_eq_none.mp hknown
    let pruned := pruneExpired site.scan command.observedAtUnixMS ledger.kv.rows
    refine .takes (KVReceipt.row
      ⟨kvFingerprint site.codec command, slot, (mutateKV command pruned).1⟩)
      ?_ rfl ?_ (by rw [if_neg hknown])
    · simp only [receipt, receiptRow, hvoid, Option.map_none]
    · rintro ⟨kind, requestID⟩
      cases kind with
      | sql => simp [receipt, receiptRow]
      | kv =>
        simp only [receipt, receiptRow, Table.lookup_insert_eq, Prod.mk.injEq, true_and]
        split <;> rfl
      | notify => simp [receipt, receiptRow]

theorem settleNotify_visits {command : NotifyCommand}
    (h : ledger.settleNotify slot command = .ok ledger') :
    ledger.Visits slot (.notify, command.requestID) ledger' := by
  simp only [settleNotify, bind_eq_ok, apply_eq_ok] at h
  obtain ⟨_, -, h⟩ := h
  by_cases hknown : (ledger.notify.lookup command.requestID).isSome
  · rw [if_pos hknown] at h
    cases h
    exact .found (by simpa [receipt, receiptRow] using hknown) rfl
  · rw [if_neg hknown] at h
    cases h
    have hvoid := Option.not_isSome_iff_eq_none.mp hknown
    refine .takes (NotifyReceipt.row ⟨notifyFingerprint site.codec command, slot⟩) ?_ rfl ?_ rfl
    · simp only [receipt, receiptRow, hvoid, Option.map_none]
    · rintro ⟨kind, requestID⟩
      cases kind with
      | sql | kv => simp [receipt, receiptRow]
      | notify =>
        simp only [receipt, receiptRow, Table.lookup_insert_eq, Prod.mk.injEq, true_and]
        split <;> rfl

theorem settlesAllSQL_onceLog {commands : List (SQLCommand site.lib.Float)}
    (h : SettlesAllSQL allowed slot commands ledger ledger') :
    ledger'.onceLog = ledger.onceLog.visitAll slot (requestKeys (.sql commands)) ∧
      ledger.Keeps ledger' := by
  induction commands generalizing ledger with
  | nil =>
    obtain rfl : ledger' = ledger := h
    exact ⟨rfl, fun _ _ => id⟩
  | cons command rest ih =>
    obtain ⟨middle, hfirst, hrest⟩ := h
    obtain ⟨hlog, hkeeps⟩ := ih hrest
    obtain ⟨hid, hleaves⟩ | ⟨hid, hsee⟩ := settlesSQL_cases hfirst
    · have hsame : ledger.Keeps middle := fun key row hrow => (hleaves.receipt key).trans hrow
      refine ⟨?_, hsame.trans hkeeps⟩
      rw [hlog, hleaves.onceLog]
      simp [requestKeys, hid]
    · refine ⟨?_, hsee.keeps.trans hkeeps⟩
      rw [hlog, hsee.onceLog]
      simp [requestKeys, hid, OnceLog.visitAll]

theorem settleAllKV_onceLog {commands : List KVCommand}
    (h : commands.foldlM (fun ledger command => ledger.settleKV slot command) ledger =
      .ok ledger') :
    ledger'.onceLog = ledger.onceLog.visitAll slot
        (requestKeys (.kv commands : Payload site.lib.Float)) ∧
      ledger.Keeps ledger' := by
  induction commands generalizing ledger with
  | nil =>
    cases h
    exact ⟨rfl, fun _ _ => id⟩
  | cons command rest ih =>
    simp only [List.foldlM_cons, bind_eq_ok] at h
    obtain ⟨middle, hfirst, hrest⟩ := h
    obtain ⟨hlog, hkeeps⟩ := ih hrest
    have hsee := settleKV_visits hfirst
    refine ⟨?_, hsee.keeps.trans hkeeps⟩
    rw [hlog, hsee.onceLog]
    rfl

theorem settlesPayload_onceLog {payload : Payload site.lib.Float}
    (h : SettlesPayload allowed slot ledger ledger' payload) :
    ledger'.onceLog = ledger.onceLog.visitAll slot (requestKeys payload) ∧
      ledger.Keeps ledger' := by
  cases payload with
  | sql => exact settlesAllSQL_onceLog h
  | kv => exact settleAllKV_onceLog h
  | notify =>
    have hsee := settleNotify_visits h
    exact ⟨hsee.onceLog, hsee.keeps⟩
  | graph =>
    obtain rfl : ledger' = ledger := h
    exact ⟨rfl, fun _ _ => id⟩
  | control =>
    obtain rfl : ledger' = ledger := h
    exact ⟨rfl, fun _ _ => id⟩

/-! ## Slots -/

variable {log : ℕ → ByteString}

theorem Step.passed (hstep : Step allowed log ledger ledger')
    (hpass : ledger.onceLog.Passed site.window (site.requests log) ledger.tip) :
    ledger'.onceLog.Passed site.window (site.requests log) ledger'.tip := by
  obtain ⟨payload, settled, hgot, hpaid, rfl⟩ := hstep
  have hlog : settled.onceLog =
      (ledger.expire (ledger.tip + 1) payload).onceLog.visitAll (ledger.tip + 1)
        (requestKeys payload) :=
    (settlesPayload_onceLog hpaid).1
  have hasks : site.requests log (ledger.tip + 1) = requestKeys payload := by
    rw [Site.requests, hgot]
  have hwin : 0 < site.window := by
    have := site.window_bounds.1
    omega
  change settled.onceLog.Passed site.window (site.requests log) (ledger.tip + 1)
  rw [hlog, expire]
  split
  · rename_i hcontrol
    have hnone : requestKeys payload = [] := by
      rw [Bool.and_eq_true] at hcontrol
      cases payload with
      | control => rfl
      | sql | kv | notify | graph => cases hcontrol.2
    rw [hnone]
    exact hpass.skip (hasks.trans hnone)
  · rw [onceLog_prune, ← hasks]
    exact hpass.next hwin

/-- A receipt stays until its window is over. -/
theorem Step.keeps {row : ReceiptRow × Bool} (hstep : Step allowed log ledger ledger')
    (hpos : 0 < row.1.slot) (hlive : ledger.tip + 1 < row.1.slot + site.window)
    (hrow : ledger.receipt key = some row) : ledger'.receipt key = some row := by
  obtain ⟨payload, settled, -, hpaid, rfl⟩ := hstep
  apply (settlesPayload_onceLog hpaid).2
  unfold expire
  split
  · exact hrow
  · rw [receipt_prune, hrow]
    exact Option.filter_some_pos (decide_eq_true ((OnceLog.floor_le hpos).mpr hlive))

end Ledger

/-! ## The check -/

/-- A byte that continues a character. -/
def isContinuation (byte : UInt8) : Bool := byte &&& 0xc0 == 0x80

/-- Counts characters up to the first NUL; after a leading byte, continuation bytes are part of
its character. -/
def textLengthFrom (led : Bool) : ByteString → ℕ
  | [] => 0
  | byte :: rest =>
    if byte = 0 then 0
    else if led && isContinuation byte then textLengthFrom true rest
    else textLengthFrom (0xc0 ≤ byte) rest + 1

/-- SQLite's `length` of a TEXT value. -/
def textLength (text : ByteString) : ℕ := textLengthFrom false text

/-- What `loadSQLReceiptRetention` asks of each stored receipt. -/
def ReceiptRow.withinPolicy (requestID : ByteString) (row : ReceiptRow) : Bool :=
  ¬ (textLength requestID = 0 ∨ maxRequestIDBytes < textLength requestID ∨
    (row.committed = true ∧ row.errorCode ≠ .none) ∨
    (row.committed = false ∧ row.errorCode = .none) ∨
    (row.committed = false ∧ row.sqlResult.length ≠ 0) ∨
    maxMutationResultBytes < row.sqlResult.length)

def loadSQLReceiptRetention (store : Store site) : Checked Unit := do
  require (store.usage.valid site.window = true)
    "SQL receipt retention counters exceed policy bounds"
  require (store.sql.entries.all fun entry => entry.2.withinPolicy entry.1)
    "stored SQL receipt envelope exceeds policy bounds"
  require ((usageOf store.sql).resultBytes = store.usage.resultBytes ∧
      (usageOf store.sql).receipts = store.usage.receipts)
    "SQL receipt retention counters do not match stored receipts"

def loadSQLReceiptBloom (store : Store site) : SQLReceiptBloom :=
  let floor := if site.window ≤ store.tip then store.tip - site.window + 1 else 0
  SQLReceiptBloom.addAll site.codec site.window .empty
    ((store.sql.entries.filter fun entry => floor ≤ entry.2.slot).map
      fun entry => (entry.1, entry.2.slot))

def openMaterializer (store : Store site) : Checked (State site) := do
  loadSQLReceiptRetention store
  .ok { store, bloom := loadSQLReceiptBloom store, recent := ∅ }

/-! ## Lookups -/

namespace State

def receipt (m : State site) : RequestKey → Option (ReceiptRow × Bool) :=
  receiptRow m.store.sql m.store.kv.receipts m.store.notify

def mutationReceipt (m : State site) (key : RequestKey) :
    Checked (Option (MutationReceipt × Bool)) :=
  match m.receipt key with
  | none => .ok none
  | some (row, applied) => do
    let record ← scanReceipt site.window row
    if record.receipt.retryThroughSlot < m.store.tip then .ok none
    else .ok (some (record.receipt, applied))

/-- Whether the fingerprint does not contradict a receipt, and whether there is one. -/
def requestMatches (m : State site) (key : RequestKey) (fingerprint : ValueHash) :
    Checked (Bool × Bool) :=
  match m.receipt key with
  | none => .ok (true, false)
  | some (row, _) => do
    let record ← scanReceipt site.window row
    if record.receipt.retryThroughSlot < m.store.tip then .ok (true, false)
    else .ok (record.fingerprint == fingerprint, true)

/-- The receipt and the result of a SQL request, and whether the fingerprint matches. -/
def sqlRequestResultFingerprint (m : State site) (requestID : ByteString)
    (fingerprint : ValueHash) (wantRows : Bool) :
    Checked (Option (MutationReceipt × SQLCommandResult) × Bool) :=
  let stored : Checked (Option (MutationReceipt × SQLCommandResult) × Bool) :=
    if m.bloom.mightContain site.codec site.window requestID m.store.tip then
      match m.store.sql.lookup requestID with
      | none => .ok (none, true)
      | some row => do
        let record ← scanReceipt site.window row
        if record.receipt.retryThroughSlot < m.store.tip then .ok (none, true)
        else .ok (some (record.receipt, record.sqlResult), record.fingerprint == fingerprint)
    else .ok (none, true)
  match m.recent.lookup requestID with
  | none => stored
  | some row =>
    let receipt := row.receipt site.window
    if receipt.retryThroughSlot < m.store.tip then .ok (none, true)
    else if wantRows then stored
    else .ok (some (receipt, noResult), row.fingerprint == fingerprint)

end State

/-! ## Request ids -/

theorem textLengthFrom_le (led : Bool) (text : ByteString) :
    textLengthFrom led text ≤ text.length := by
  induction text generalizing led with
  | nil => exact le_rfl
  | cons byte rest ih =>
    unfold textLengthFrom
    rw [List.length_cons]
    split
    · exact Nat.zero_le _
    · split
      · exact (ih true).trans (Nat.le_succ _)
      · exact Nat.succ_le_succ (ih _)

/-- A text without characters is empty or begins with a NUL. -/
theorem textLength_eq_zero {text : ByteString} : textLength text = 0 ↔ text.headD 0 = 0 := by
  cases text with
  | nil => simp [textLength, textLengthFrom]
  | cons byte rest =>
    unfold textLength textLengthFrom
    rw [List.headD_cons, Bool.false_and, if_neg Bool.false_ne_true]
    split
    · rename_i hzero
      simp [hzero]
    · rename_i hne
      simp [hne]

/-- A receipt that a command left passes the check unless its id begins with a NUL. -/
theorem ReceiptRow.Formed.withinPolicy {requestID : ByteString} {row : ReceiptRow}
    (hform : row.Formed) (hlen : requestID.length ≤ maxRequestIDBytes) :
    row.withinPolicy requestID = true ↔ requestID.headD 0 ≠ 0 := by
  have hout : row.sqlResult.length ≤ maxMutationResultBytes := by
    obtain hempty | ⟨result, hkeep, hbytes⟩ := hform.result
    · rw [hempty]
      exact Nat.zero_le _
    · rw [hbytes]
      exact hkeep.length
  have htext : textLength requestID ≤ maxRequestIDBytes :=
    (textLengthFrom_le false requestID).trans hlen
  have hcode : ¬ (row.committed = true ∧ row.errorCode ≠ .none) :=
    fun h => h.2 (hform.committed h.1)
  have hcode' : ¬ (row.committed = false ∧ row.errorCode = .none) :=
    fun h => (hform.rejected h.1).1 h.2
  have hnone : ¬ (row.committed = false ∧ row.sqlResult.length ≠ 0) :=
    fun h => h.2 (List.length_eq_zero_iff.mpr (hform.rejected h.1).2)
  rw [ReceiptRow.withinPolicy, decide_eq_true_iff, not_or, textLength_eq_zero]
  constructor
  · exact fun h => h.1
  · intro hne
    refine ⟨hne, ?_⟩
    simp only [not_or]
    exact ⟨htext.not_gt, hcode, hcode', hnone, hout.not_gt⟩

end Rhiza.Materializer
