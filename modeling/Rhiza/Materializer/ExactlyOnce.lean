import Rhiza.Materializer.Retention

/-! # Exactly once within the window

In every run, with all batches, restarts and faults, two effects of one request are a window
apart, and a request that comes after the window takes effect again. Until the window is over
every lookup gives the receipt of the effect, if the reader can decode the stored result.
-/

namespace Rhiza.Materializer

open Foundations Commands

variable {site : Site} {window : ℕ} {row : ReceiptRow}

/-! ## Readable receipts -/

/-- The reader's charges for the stored result fit its budget. -/
def ReceiptRow.Readable (row : ReceiptRow) : Prop :=
  ∀ result : SQLCommandResult, result.Storable → row.sqlResult = result.bytes →
    result.readCharge ≤ maxResultBytes

theorem scanReceipt_record {record : StoredReceipt} (h : scanReceipt window row = .ok record) :
    record.fingerprint = row.fingerprint ∧ record.receipt = row.receipt window := by
  unfold scanReceipt at h
  split at h
  · cases h
    exact ⟨rfl, rfl⟩
  · rw [bind_eq_ok] at h
    obtain ⟨result, -, hjot⟩ := h
    cases hjot
    exact ⟨rfl, rfl⟩

theorem ReceiptRow.Formed.scan_iff (hform : row.Formed) :
    (∃ record, scanReceipt window row = .ok record) ↔ row.Readable := by
  obtain hempty | ⟨result, hkeep, hbytes⟩ := hform.result
  · have hnone : row.Readable := by
      intro result _ hbytes
      rw [hempty] at hbytes
      cases hbytes
    refine ⟨fun _ => hnone, fun _ => ?_⟩
    rw [scanReceipt, if_pos hempty]
    exact ⟨_, rfl⟩
  · have hne : row.sqlResult ≠ [] := by
      rw [hbytes]
      exact List.cons_ne_nil _ _
    have hgot := toOption_decodeSQLResult hkeep
    constructor
    · rintro ⟨record, hjot⟩ other hother hsame
      rw [scanReceipt, if_neg hne, bind_eq_ok] at hjot
      obtain ⟨decoded, hparsed, -⟩ := hjot
      have hgot' := toOption_decodeSQLResult hother
      rw [← hsame, hparsed] at hgot'
      by_contra hcost
      rw [if_neg hcost] at hgot'
      cases hgot'
    · intro hreadable
      rw [if_pos (hreadable result hkeep hbytes), ← hbytes, toOption_eq_some] at hgot
      rw [scanReceipt, if_neg hne, hgot]
      exact ⟨_, rfl⟩

/-! ## Lookups -/

/-- Every lookup of the request answers with the receipt. -/
structure State.Answers (m : State site) (key : RequestKey) (record : StoredReceipt)
    (applied : Bool) : Prop where
  mutationReceipt : m.mutationReceipt key = .ok (some (record.receipt, applied))
  requestMatches : ∀ fingerprint,
    m.requestMatches key fingerprint = .ok (record.fingerprint == fingerprint, true)
  result : ∀ requestID, key = (.sql, requestID) → ∀ fingerprint,
    m.sqlRequestResultFingerprint requestID fingerprint true =
      .ok (some (record.receipt, record.sqlResult), record.fingerprint == fingerprint)
  status : ∀ requestID, key = (.sql, requestID) → ∀ fingerprint, ∃ result,
    m.sqlRequestResultFingerprint requestID fingerprint false =
      .ok (some (record.receipt, result), record.fingerprint == fingerprint)

namespace State

variable {m : State site} {requestID : ByteString} {row : ReceiptRow}
  {record : StoredReceipt} {key : RequestKey} {applied : Bool}

section Lookup

variable (hsound : m.Sound) (hrow : m.store.sql.lookup requestID = some row)
include hsound hrow

/-- The filter lets the request through to its receipt. -/
theorem Sound.mightContain (hlive : m.store.tip < row.slot + site.window) :
    m.bloom.mightContain site.codec site.window requestID m.store.tip = true := by
  have hwin := site.window_bounds.1
  have hlate := hsound.tallied.late row.slot (mem_slotsOf.mpr ⟨requestID, row, hrow, rfl⟩)
  exact (hsound.marked requestID row hrow hlive).mightContain
    (Nat.div_le_div_right hlate) (epoch_near (by omega) hlive)

/-- What is cached of the request is its receipt without the result. -/
theorem Sound.recent :
    m.recent.lookup requestID = none ∨
      m.recent.lookup requestID = some { row with sqlResult := [] } := by
  cases hcached : m.recent.lookup requestID with
  | none => exact .inl rfl
  | some cached =>
    right
    rw [hsound.cached requestID cached row hcached hrow]

theorem Sound.sqlAnswers (hlive : m.store.tip < row.slot + site.window)
    (hscan : scanReceipt site.window row = .ok record) (fingerprint : ValueHash) :
    m.sqlRequestResultFingerprint requestID fingerprint true =
        .ok (some (record.receipt, record.sqlResult), record.fingerprint == fingerprint) ∧
      ∃ result, m.sqlRequestResultFingerprint requestID fingerprint false =
        .ok (some (record.receipt, result), record.fingerprint == fingerprint) := by
  obtain ⟨hprint, hslip⟩ := scanReceipt_record hscan
  have hwin := site.window_bounds.1
  have hlate : ¬ (row.receipt site.window).retryThroughSlot < m.store.tip := by
    change ¬ row.slot + site.window - 1 < m.store.tip
    omega
  have hlate' : ¬ record.receipt.retryThroughSlot < m.store.tip := by
    rw [hslip]
    exact hlate
  have hwipe : ({ row with sqlResult := [] } : ReceiptRow).receipt site.window =
      row.receipt site.window := rfl
  unfold sqlRequestResultFingerprint
  simp only [hsound.mightContain hrow hlive, if_true, hrow, hscan, ok_bind, hlate', if_false]
  obtain hnone | hcached := hsound.recent hrow
  · rw [hnone]
    exact ⟨rfl, record.sqlResult, rfl⟩
  · simp only [hcached, hwipe, hlate, if_false, Bool.false_eq_true]
    refine ⟨trivial, noResult, ?_⟩
    rw [hslip, hprint]

end Lookup

theorem Sound.answers (hsound : m.Sound)
    (hrow : m.receipt key = some (row, applied)) (hlive : m.store.tip < row.slot + site.window)
    (hscan : scanReceipt site.window row = .ok record) : m.Answers key record applied := by
  have hwin := site.window_bounds.1
  have hlate : ¬ record.receipt.retryThroughSlot < m.store.tip := by
    rw [(scanReceipt_record hscan).2]
    change ¬ row.slot + site.window - 1 < m.store.tip
    omega
  refine ⟨?_, ?_, ?_, ?_⟩
  · simp only [mutationReceipt, hrow, hscan, ok_bind, hlate, if_false]
  · intro fingerprint
    simp only [requestMatches, hrow, hscan, ok_bind, hlate, if_false]
  · rintro requestID rfl fingerprint
    simp only [receipt, receiptRow, Option.map_eq_some_iff, Prod.mk.injEq] at hrow
    obtain ⟨stored, hbox, rfl, -⟩ := hrow
    exact (hsound.sqlAnswers hbox hlive hscan fingerprint).1
  · rintro requestID rfl fingerprint
    simp only [receipt, receiptRow, Option.map_eq_some_iff, Prod.mk.injEq] at hrow
    obtain ⟨stored, hbox, rfl, -⟩ := hrow
    exact (hsound.sqlAnswers hbox hlive hscan fingerprint).2

theorem Answers.scanned {stored : Bool}
    (hsaid : m.Answers key record applied) (hrow : m.receipt key = some (row, stored)) :
    ∃ record', scanReceipt site.window row = .ok record' := by
  have hget := hsaid.mutationReceipt
  simp only [State.mutationReceipt, hrow, bind_eq_ok] at hget
  obtain ⟨record', hscan, -⟩ := hget
  exact ⟨record', hscan⟩

end State

/-! ## Runs -/

namespace Node

/-- Requests take effect once within the window. -/
structure ExactlyOnce (log : ℕ → ByteString) (node : Node site) : Prop where
  distinct : node.effects.Nodup
  apart : ∀ effect ∈ node.effects, ∀ later ∈ node.effects, later.kind = effect.kind →
    later.requestID = effect.requestID → effect.slot < later.slot →
      effect.slot + site.window ≤ later.slot
  /-- The first request after the window takes effect. -/
  again : ∀ effect ∈ node.effects, ∀ time, effect.slot + site.window ≤ time → time ≤ node.tip →
    (effect.kind, effect.requestID) ∈ site.requests log time →
    (∀ between, effect.slot + site.window ≤ between → between < time →
      (effect.kind, effect.requestID) ∉ site.requests log between) →
    ⟨time, effect.kind, effect.requestID⟩ ∈ node.effects
  /-- Within the window the receipt of the effect is found, now and later. -/
  answers : ∀ effect ∈ node.effects, node.tip < effect.slot + site.window →
    ∃ record applied, record.receipt.slot = effect.slot ∧
      ∀ events later, runFrom (Node.step log) node events = some later →
        later.tip < effect.slot + site.window →
          later.materializer.Answers (effect.kind, effect.requestID) record applied

variable {log : ℕ → ByteString} {database : site.engine.Database} {events : List (Event site)}
  {allowed : Ledger.Allowed site} {node : Node site} {effect : Effect}

theorem mem_onceLog_effects :
    (effect.slot, effect.kind, effect.requestID) ∈ node.ledger.onceLog.effects ↔
      effect ∈ node.effects := by
  constructor
  · intro hmem
    obtain ⟨other, hother, heq⟩ := List.mem_map.mp hmem
    obtain rfl : other = effect := by
      cases other
      cases effect
      simpa using heq
    exact hother
  · exact fun hmem => List.mem_map.mpr ⟨effect, hmem, rfl⟩

/-- An effect within its window has its receipt in the table. -/
theorem Reached.receipt_of_effect (hreach : node.Reached allowed log database)
    (hmem : effect ∈ node.effects) (hlive : node.tip < effect.slot + site.window) :
    ∃ row applied, node.ledger.receipt (effect.kind, effect.requestID) = some (row, applied) ∧
      row.slot = effect.slot := by
  have hrec := hreach.passed.once.live _ (mem_onceLog_effects.mpr hmem) hlive
  simp only [Ledger.onceLog, Option.map_eq_some_iff] at hrec
  obtain ⟨⟨row, applied⟩, hrow, hslot⟩ := hrec
  exact ⟨row, applied, hrow, hslot⟩

/-- The receipts of other commands than SQL commands are all alike. -/
theorem receipt_plain {ledger : Ledger site} {kind : MutationKind} {requestID : ByteString}
    {row : ReceiptRow} {applied : Bool}
    (hrow : ledger.receipt (kind, requestID) = some (row, applied)) (hkind : kind ≠ .sql) :
    row.committed = true ∧ row.errorCode = .none ∧ row.sqlResult = [] := by
  cases kind with
  | sql => exact absurd rfl hkind
  | kv | notify =>
    simp only [Ledger.receipt, receiptRow, Option.map_eq_some_iff] at hrow
    obtain ⟨stored, -, heq⟩ := hrow
    obtain ⟨rfl, -⟩ := Prod.mk.inj heq
    exact ⟨rfl, rfl, rfl⟩

section Reached

variable (hreach : node.Reached allowed log database) {row : ReceiptRow}
include hreach

theorem Reached.formed {key : RequestKey} {applied : Bool}
    (hrow : node.ledger.receipt key = some (row, applied)) : row.Formed := by
  obtain ⟨kind, requestID⟩ := key
  by_cases hkind : kind = .sql
  · subst hkind
    simp only [Ledger.receipt, receiptRow, Option.map_eq_some_iff, Prod.mk.injEq] at hrow
    obtain ⟨stored, hbox, rfl, -⟩ := hrow
    exact (hreach.proper requestID stored hbox).1
  · obtain ⟨hpaid, hcode, hempty⟩ := receipt_plain hrow hkind
    refine ⟨fun _ => hcode, fun hdeny => ?_, .inl hempty⟩
    rw [hpaid] at hdeny
    cases hdeny

theorem Reached.distinct : node.effects.Nodup := by
  have hpairs := hreach.passed.once.apart
  simp only [Ledger.onceLog, List.pairwise_map] at hpairs
  refine hpairs.imp fun {effect later} hapart => ?_
  rintro rfl
  have hwin := site.window_bounds.1
  have hself := hapart rfl
  omega

theorem Reached.apart {effect later : Effect} (hdeed : effect ∈ node.effects)
    (hlater : later ∈ node.effects) (hkind : later.kind = effect.kind)
    (hid : later.requestID = effect.requestID) (hlt : effect.slot < later.slot) :
    effect.slot + site.window ≤ later.slot := by
  by_contra hnear
  have htwo := mem_onceLog_effects.mpr hlater
  rw [hkind, hid] at htwo
  have := hreach.passed.once.eq_of_near (mem_onceLog_effects.mpr hdeed) htwo hlt.le (by omega)
  omega

/-- Where the lookups answer, the receipts can be read. -/
theorem Reached.readable_of_exactlyOnce (honce : node.ExactlyOnce log) {requestID : ByteString}
    (hrow : node.materializer.store.sql.lookup requestID = some row)
    (hlive : node.tip < row.slot + site.window) : row.Readable := by
  have hslip : node.ledger.receipt (.sql, requestID) = some (row, false) := by
    change (node.materializer.store.sql.lookup requestID).map (·, false) = _
    rw [hrow, Option.map_some]
  have hrec : node.ledger.onceLog.recorded (.sql, requestID) = some row.slot := by
    simp only [Ledger.onceLog, hslip, Option.map_some]
  have hmem := hreach.passed.once.traced _ _ hrec
  have hdeed : (⟨row.slot, .sql, requestID⟩ : Effect) ∈ node.effects := mem_onceLog_effects.mp hmem
  obtain ⟨record, applied, -, hsaid⟩ := honce.answers _ hdeed hlive
  exact (hreach.formed hslip).scan_iff.mp ((hsaid [] node rfl hlive).scanned hslip)

end Reached

/-- In every run requests take effect once within the window, unless a receipt that is still to
be found has a result that the reader does not decode. -/
theorem exactlyOnce_iff (hrun : runFrom (Node.step log) (fresh database) events = some node) :
    node.ExactlyOnce log ↔ ∀ requestID row,
      node.materializer.store.sql.lookup requestID = some row →
        node.tip < row.slot + site.window → row.Readable := by
  have hreached := reached_any hrun
  have hpassed := hreached.passed
  constructor
  · intro honce requestID row
    exact hreached.readable_of_exactlyOnce honce
  · intro hreadable
    refine ⟨hreached.distinct, fun effect heffect later hlater => hreached.apart heffect hlater,
      ?_, ?_⟩
    · intro effect heffect time hlate hle hrequest hnone
      have hfirst := mem_onceLog_effects.mpr heffect
      exact mem_onceLog_effects.mp (hpassed.again hfirst hlate hle hrequest hnone)
    · intro effect heffect hlive
      obtain ⟨row, applied, hrow, hslot⟩ := hreached.receipt_of_effect heffect hlive
      have hpos : 0 < row.slot := by
        rw [hslot]
        exact hpassed.once.positive _ (mem_onceLog_effects.mpr heffect)
      have hread : row.Readable := by
        by_cases hkind : effect.kind = .sql
        · have hsql := hrow
          rw [hkind] at hsql
          simp only [Ledger.receipt, receiptRow, Option.map_eq_some_iff, Prod.mk.injEq] at hsql
          obtain ⟨stored, hstored, rfl, -⟩ := hsql
          exact hreadable effect.requestID stored hstored (hslot ▸ hlive)
        · intro result _ hbytes
          rw [(receipt_plain hrow hkind).2.2] at hbytes
          cases hbytes
      obtain ⟨record, hscan⟩ := (hreached.formed hrow).scan_iff.mpr hread
      refine ⟨record, applied, ?_, fun events' later hlater hlive' => ?_⟩
      · rw [(scanReceipt_record hscan).2]
        exact hslot
      · obtain ⟨hreached', hsteps⟩ := hreached.run (guarded_any node events') hlater
        rw [← hslot] at hlive'
        have hkept := Ledger.steps_keep (row, applied) hsteps hpos hlive' hrow
        exact hreached'.sound.answers hkept hlive' hscan

end Node

/-! ## Rows of nulls -/

/-- The database in which every query returns rows of nulls. -/
def nullsEngine (rows columns : ℕ) : SQLite Library.whole.Float :=
  { returning (nulls rows columns) with
    compiles := fun _ _ => true
    steps := fun _ _ _ => true
    columns := fun _ _ => (nulls rows columns).columns
    query_columns := by
      intro database results statement returned database' h
      cases h
      rfl }

/-- The payload is one command with one statement. -/
def isSingle (requestID sql : ByteString) (wantRows : Bool) :
    Payload Library.whole.Float → Bool
  | .sql [command] => command.requestID = requestID ∧ command.sql = sql ∧ command.args.isEmpty ∧
      command.wantRows = wantRows ∧ command.requireOne = false ∧ command.statements.isEmpty ∧
      command.migration.isNone
  | _ => false

theorem eq_of_isSingle {requestID sql : ByteString} {wantRows : Bool}
    {payload : Payload Library.whole.Float} (h : isSingle requestID sql wantRows payload = true) :
    payload = .sql [{ requestID, sql, args := [], wantRows, requireOne := false
                      statements := [], migration := none }] := by
  unfold isSingle at h
  split at h
  · rename_i command
    obtain ⟨id, text, args, want, one, statements, migration⟩ := command
    simp only [List.isEmpty_iff, Option.isNone_iff_eq_none, decide_eq_true_eq] at h
    obtain ⟨rfl, rfl, rfl, rfl, rfl, rfl, rfl⟩ := h
    rfl
  · cases h

theorem decode_returningCommand :
    decodeValue .whole Proposal.plainControls (sqlValue [returnAll]) =
      .ok (.sql [returnAll]) := by
  obtain ⟨payload, hpay, hplain⟩ : ∃ payload, decodeValue .whole Proposal.plainControls
      (sqlValue [returnAll]) = .ok payload ∧
        isSingle (bytesOf "r1") (bytesOf "DELETE FROM t RETURNING *") true payload = true := by
    decide +kernel
  rw [hpay, eq_of_isSingle hplain]
  rfl

def nullsLog : ℕ → ByteString := fun _ => sqlValue [returnAll]

/-- The state after the command, which keeps its result. -/
def nullsNode (rows columns : ℕ) : Node (plainSite (nullsEngine rows columns)) :=
  (Node.fresh ()).applyBatch nullsLog (plainBatch _ 1 Nat.one_pos)

section Nulls

variable {rows columns : ℕ}

theorem nulls_meets : Event.Meets (fun _ => Working.Current) nullsLog (Node.fresh ())
    (.applyBatch (plainBatch (nullsEngine rows columns) 1 (by decide))) := by
  refine ⟨fun payload expired hgot hdue => ?_, fun _ _ => trivial⟩
  cases hgot.symm.trans decode_returningCommand
  cases hdue
  refine ⟨fun _ database _ => ⟨fun _ => nofun, fun _ _ _ _ => trivial⟩, fun _ _ => trivial⟩

section Nulls

variable (h : (nullsResult rows columns).Storable)
  (hcost : 256 + (columns * 33 + rows * (64 + columns * 64 + columns)) ≤ maxResultBytes)
include h hcost

/-- The command is settled: its result is kept with the receipt. -/
theorem nulls_step :
    ∃ (row : ReceiptRow) (ledger : Ledger (plainSite (nullsEngine rows columns))),
      Ledger.Step Ledger.exactOutcome nullsLog (Node.fresh ()).ledger ledger ∧ ledger.tip = 1 ∧
      ledger.sql.lookup returnAll.requestID = some row ∧ row.slot = 1 ∧
      row.sqlResult = (nullsResult rows columns).bytes := by
  obtain ⟨fingerprint, hprint⟩ := Option.isSome_iff_exists.mp fingerprint_returningCommand
  have hconclude : (Node.fresh () : Node (plainSite (nullsEngine rows columns))).ledger.conclude 1
      fingerprint returnAll
      (executeSQLCommand (nullsEngine rows columns).toEngine () returnAll) =
        .ok (Ledger.concluded 1 returnAll.requestID (storedNulls rows columns) _) :=
    bind_eq_ok.mpr ⟨_, apply_eq_ok.mpr (executeCommand_nulls h hcost hprint), rfl⟩
  refine ⟨_, _, ⟨_, _, decode_returningCommand, ⟨_, ⟨validate_returningCommand, fingerprint,
    hprint, (if_neg fun hseen => nomatch hseen.2).mpr ⟨_, rfl, hconclude⟩⟩, rfl⟩, rfl⟩,
    rfl, AList.lookup_insert _, rfl, rfl⟩

theorem nullsNode_receipt :
    (nullsNode rows columns).tip = 1 ∧ ∃ row,
      (nullsNode rows columns).materializer.store.sql.lookup returnAll.requestID = some row ∧
      row.slot = 1 ∧ row.sqlResult = (nullsResult rows columns).bytes := by
  obtain ⟨row, ledger, hstep, htip, hrow, hslot, hout⟩ := nulls_step h hcost
  have hreach : (Node.fresh () : Node (plainSite (nullsEngine rows columns))).Reached
      Ledger.exactOutcome nullsLog () := Node.reached_fresh
  have hmay : Event.Permitted Ledger.exactOutcome nullsLog (Node.fresh ())
      (.applyBatch (plainBatch (nullsEngine rows columns) 1 (by decide))) :=
    Working.Meets.imp (fun _ _ _ _ => Working.Current.permitted) nulls_meets
  have hreadable : ¬ (Node.fresh () : Node (plainSite (nullsEngine rows columns))
      ).materializer.store.Unreadable := by
    rintro ⟨requestID, row, message, hnone, -⟩
    cases hnone
  have hnext := hreach.applyBatch_complete Ledger.exactOutcome_deterministic rfl hmay
    hreadable le_rfl (.single hstep) (by rw [htip]; rfl) (fun _ _ _ => rfl)
  have htip' : (nullsNode rows columns).tip = 1 := Nat.succ_injective hnext
  obtain ⟨-, hsteps⟩ := hreach.step hmay rfl
  obtain rfl := Ledger.eq_of_steps Ledger.exactOutcome_deterministic (.single hstep) hsteps
    (htip.trans htip'.symm)
  exact ⟨htip', row, hrow, hslot, hout⟩

end Nulls

end Nulls

/-- Ten thousand rows of thirteen nulls are kept, and no lookup finds the receipt. -/
theorem not_exactlyOnce_nulls :
    runFrom (Node.step nullsLog) (Node.fresh ())
        [.applyBatch (plainBatch (nullsEngine 10000 13) 1 (by decide))] =
      some (nullsNode 10000 13) ∧ ¬ (nullsNode 10000 13).ExactlyOnce nullsLog := by
  have hstorable : (nullsResult 10000 13).Storable :=
    storable_nullsResult (by decide) (by decide) (by decide)
  obtain ⟨htip, row, hrow, hslot, hresult⟩ := nullsNode_receipt hstorable (by decide)
  have hrun : runFrom (Node.step nullsLog) (Node.fresh ())
      [.applyBatch (plainBatch (nullsEngine 10000 13) 1 (by decide))] =
        some (nullsNode 10000 13) := rfl
  refine ⟨hrun, fun honce => ?_⟩
  have hlive : (nullsNode 10000 13).tip < row.slot + 1024 := by
    rw [htip, hslot]
    decide
  have hread := (Node.reached_any hrun).readable_of_exactlyOnce honce hrow hlive
  have hcharge := hread _ hstorable hresult
  rw [readCharge_nullsResult] at hcharge
  exact absurd hcharge (by decide)

theorem exactlyOnce_nulls : (nullsNode 3 2).ExactlyOnce nullsLog := by
  have hstorable : (nullsResult 3 2).Storable :=
    storable_nullsResult (by decide) (by decide) (by decide)
  obtain ⟨-, row, hrow, -, hresult⟩ := nullsNode_receipt hstorable (by decide)
  have hkeys : (nullsNode 3 2).materializer.store.sql.keys = [returnAll.requestID] := by
    decide +kernel
  have hrun : runFrom (Node.step nullsLog) (Node.fresh ())
      [.applyBatch (plainBatch (nullsEngine 3 2) 1 (by decide))] = some (nullsNode 3 2) := rfl
  refine (Node.exactlyOnce_iff hrun).mpr fun requestID stored hstored _ result hother hbytes => ?_
  have hmem := (Table.mem_keys_iff ..).mpr ⟨stored, hstored⟩
  rw [hkeys] at hmem
  obtain rfl := List.mem_singleton.mp hmem
  cases hrow.symm.trans hstored
  have hsmall : (nullsResult 3 2).readCharge ≤ maxResultBytes := by
    rw [readCharge_nullsResult]
    decide
  have hdecode := toOption_decodeSQLResult hstorable
  rw [if_pos hsmall, ← hresult, hbytes, toOption_decodeSQLResult hother] at hdecode
  by_contra hcharge
  rw [if_neg hcharge] at hdecode
  cases hdecode

end Rhiza.Materializer
