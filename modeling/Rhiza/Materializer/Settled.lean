import Rhiza.Materializer.Waiting

/-! # Batches settle the log

Each batch that is applied settles the values of its slots one after the other. The filter is
never asked in vain for a command that has a receipt: a receipt that is not of the running batch
and not expired was added to the filter.
-/

namespace Rhiza.Materializer

open Foundations Commands

variable {site : Site}

/-- The ledger settles the next slot of the log. -/
def Ledger.Step (allowed : Ledger.Allowed site) (log : ℕ → ByteString)
    (ledger ledger' : Ledger site) : Prop :=
  ledger.Settles allowed (ledger.tip + 1) (log (ledger.tip + 1)) ledger'

/-- Every receipt that has not expired is in the filter. -/
def Store.MarkedIn (bloom : SQLReceiptBloom) (store : Store site) : Prop :=
  ∀ requestID row, store.sql.lookup requestID = some row → store.tip < row.slot + site.window →
    bloom.Marked site.codec site.window requestID row.slot

namespace Working

variable {base : Store site} {slot : ℕ} {working next : Working site} {bloom : SQLReceiptBloom}
  {execution : Execution site} {allowed : Ledger.Allowed site}

/-- What is found out about a request id is whether it has a receipt, unless the receipt cannot
be read. -/
theorem Valid.known (hvalid : working.Valid base slot) (hfresh : working.Fresh slot)
    (hbase : base.tip ≤ working.store.tip) (hslot : slot = working.store.tip + 1)
    (hold : Tallied site.window base.tip base.sql) (hmark : base.MarkedIn bloom)
    (requestID : ByteString) :
    working.known bloom requestID =
        .ok (decide (requestID ≠ [] ∧ (working.merged.lookup requestID).isSome)) ∨
      ∃ message row, working.known bloom requestID = .error (.other message) ∧
        base.sql.lookup requestID = some row ∧ scanReceipt site.window row = .error message := by
  by_cases hid : requestID = []
  · exact .inl (by simp [Working.known, hid])
  by_cases hours : ∃ receipt ∈ working.pending, receipt.requestID = requestID
  · obtain ⟨receipt, hmem, rfl⟩ := hours
    have hany : working.pending.any (·.requestID = receipt.requestID) = true :=
      List.any_eq_true.mpr ⟨receipt, hmem, decide_eq_true rfl⟩
    left
    rw [Working.known, if_neg hid, if_pos hany, hvalid.lookup_pending hmem]
    simp [hid]
  have hother : ∀ receipt ∈ working.pending, receipt.requestID ≠ requestID :=
    fun receipt hmem heq => hours ⟨receipt, hmem, heq⟩
  have hany : ¬ working.pending.any (·.requestID = requestID) = true := by
    rw [List.any_eq_true]
    rintro ⟨receipt, hmem, heq⟩
    exact hother receipt hmem (of_decide_eq_true heq)
  have hmerge := lookup_merged hother
  rw [Working.known, if_neg hid, if_neg hany, hmerge]
  cases hrow : working.store.sql.lookup requestID with
  | none =>
    left
    simp
  | some row =>
    have hbaseRow := (hvalid.old requestID row hrow).resolve_left hours
    have hlate := hold.late row.slot (mem_slotsOf.mpr ⟨requestID, row, hbaseRow, rfl⟩)
    have hlive := hfresh row.slot (mem_slotsOf.mpr ⟨requestID, row, hmerge.trans hrow, rfl⟩)
    have hmight : bloom.mightContain site.codec site.window requestID working.store.tip = true := by
      refine (hmark requestID row hbaseRow (by omega)).mightContain
        (Nat.div_le_div_right (by omega)) (epoch_near ?_ (by omega))
      have := site.window_bounds.1
      omega
    rw [if_pos hmight]
    cases hscan : scanReceipt site.window row with
    | error message => exact .inr ⟨message, row, by simp only [hscan]; rfl, hbaseRow, hscan⟩
    | ok =>
      left
      simp only [hscan]
      simp [hid]

/-- There is room for one more receipt. -/
theorem Valid.room (hvalid : working.Valid base slot) (hfresh : working.Fresh slot)
    (hper : (slotsOf working.merged).count slot < maxSQLCommandsPerDecidedValue) :
    (usageOf working.merged).receipts < maxSQLCommandsPerDecidedValue * site.window := by
  have hwin : 0 < site.window := by
    have := site.window_bounds.1
    omega
  have hlen := length_le_of_perSlot hwin hfresh hvalid.tallied.late hvalid.tallied.perSlot
  rw [length_slotsOf] at hlen
  have hsplit : maxSQLCommandsPerDecidedValue * site.window =
      maxSQLCommandsPerDecidedValue * (site.window - 1) + maxSQLCommandsPerDecidedValue := by
    rw [← Nat.mul_succ, Nat.succ_eq_add_one, Nat.sub_add_cancel hwin]
  omega

variable {command : SQLCommand site.lib.Float} {fingerprint : ValueHash} {value : ByteString}

theorem Valid.executeSQL {index : ℕ} {prepared : Prepared} {outcome : site.Outcome}
    (hvalid : working.Valid base slot) (hfresh : working.Fresh slot) (hlate : base.tip < slot)
    (hper : (slotsOf working.merged).count slot < maxSQLCommandsPerDecidedValue)
    (hnew : command.requestID ≠ [] → working.merged.lookup command.requestID = none)
    (hrun : execution slot index working.prepared working.store.database command =
      .ok (prepared, outcome)) :
    working.Tracks base slot (working.executeSQL execution slot index fingerprint command)
      (·.conclude slot fingerprint command outcome) := by
  by_cases hid : command.requestID = []
  · simp only [Working.executeSQL, hrun, ok_bind, Ledger.conclude, concludeCommand, if_pos hid]
    cases outcome with
    | error failure => cases failure <;> exact .inl ⟨_, rfl, fun _ => rfl⟩
    | ok =>
      refine .inr ⟨_, rfl, fun earlier => ?_, { hvalid with }, rfl, .inl rfl⟩
      simp [Ledger.concluded, hid, apply_ok, ok_bind]
      rfl
  · have hroom := hvalid.room hfresh hper
    simp only [Working.executeSQL, hrun, ok_bind, Ledger.conclude, concludeCommand, if_neg hid]
    cases outcome with
    | error failure =>
      cases failure with
      | policyState => exact .inl ⟨_, rfl, fun _ => rfl⟩
      | precondition | execution => exact hvalid.keepReceipt hlate hid (hnew hid) hper hroom
    | ok => exact hvalid.keepReceipt hlate hid (hnew hid) hper hroom

theorem Extends.fresh (hgrow : working.Extends slot next) (hfresh : working.Fresh slot) :
    next.Fresh slot := by
  intro recorded hmem
  obtain hsame | hadded := hgrow.slots
  · exact hfresh recorded (hsame ▸ hmem)
  · rw [hadded] at hmem
    obtain rfl | hold := List.mem_cons.mp hmem
    · have := site.window_bounds.1
      omega
    · exact hfresh recorded hold

theorem Extends.count_le (hgrow : working.Extends slot next) :
    (slotsOf next.merged).count slot ≤ (slotsOf working.merged).count slot + 1 := by
  obtain hsame | hadded := hgrow.slots
  · rw [hsame]
    exact Nat.le_succ _
  · rw [hadded, List.count_cons_self]

/-- A batch of which the last slots are being applied. -/
structure Ongoing (base : Store site) (bloom : SQLReceiptBloom) (slot : ℕ)
    (working : Working site) : Prop where
  valid : working.Valid base slot
  base_le : base.tip ≤ working.store.tip
  next : slot = working.store.tip + 1
  old : Tallied site.window base.tip base.sql
  marked : base.MarkedIn bloom

/-- A condition on a command of a slot and on the batch that is about to execute it. -/
abbrev Condition (site : Site) := ℕ → ℕ → Working site → SQLCommand site.lib.Float → Prop

/-- The outcome of the command is an allowed one. -/
def Permitted (execution : Execution site) (allowed : Ledger.Allowed site) : Condition site :=
  fun slot index working command => ∀ prepared outcome,
    execution slot index working.prepared working.store.database command =
      .ok (prepared, outcome) → allowed working.store.database command outcome

section Meets

variable (execution : Execution site) (bloom : SQLReceiptBloom) (condition : Condition site)

/-- The commands of a value that are executed meet the condition. -/
def MeetsAll (slot : ℕ) : ℕ → List (SQLCommand site.lib.Float) → Working site → Prop
  | _, [], _ => True
  | index, command :: rest, working =>
    (working.known bloom command.requestID = .ok false → condition slot index working command) ∧
      ∀ next, working.applySQL execution bloom slot index command = .ok next →
        MeetsAll slot (index + 1) rest next

def MeetsPayload (slot : ℕ) (working : Working site) : Payload site.lib.Float → Prop
  | .sql commands => working.MeetsAll execution bloom condition slot 0 commands
  | _ => True

def MeetsValue (slot : ℕ) (value : ByteString) (working : Working site) : Prop :=
  ∀ payload expired, site.decode value = .ok payload → working.expire slot payload = .ok expired →
    expired.MeetsPayload execution bloom condition slot payload

/-- The same of all commands of a batch. -/
def Meets : List (ℕ × ByteString) → Working site → Prop
  | [], _ => True
  | (slot, value) :: rest, working =>
    if slot ≤ working.store.tip then Meets rest working
    else working.MeetsValue execution bloom condition slot value ∧
      ∀ next, working.applyValue execution bloom slot value = .ok next →
        Meets rest next

end Meets

section Imply

variable {condition condition' : Condition site} {decisions : List (ℕ × ByteString)}

theorem MeetsAll.imp {index : ℕ} {commands : List (SQLCommand site.lib.Float)}
    (himp : ∀ index working command, condition slot index working command →
      condition' slot index working command)
    (h : working.MeetsAll execution bloom condition slot index commands) :
    working.MeetsAll execution bloom condition' slot index commands := by
  induction commands generalizing working index with
  | nil => exact trivial
  | cons command rest ih =>
    exact ⟨fun hknown => himp _ _ _ (h.1 hknown), fun next hnext => ih (h.2 next hnext)⟩

theorem Meets.imp
    (himp : ∀ slot index working command, condition slot index working command →
      condition' slot index working command)
    (h : working.Meets execution bloom condition decisions) :
    working.Meets execution bloom condition' decisions := by
  induction decisions generalizing working with
  | nil => exact trivial
  | cons decision rest ih =>
    unfold Meets at h ⊢
    split
    · rename_i hpass
      rw [if_pos hpass] at h
      exact ih h
    rename_i hnew
    rw [if_neg hnew] at h
    refine ⟨fun payload expired hgot hdue => ?_, fun next hnext => ih (h.2 next hnext)⟩
    have hpay := h.1 payload expired hgot hdue
    cases payload with
    | sql => exact MeetsAll.imp (himp decision.1) hpay
    | kv | notify | graph | control => exact trivial

theorem meetsAll_of_forall (hall : ∀ index working command, condition slot index working command)
    (index : ℕ) (commands : List (SQLCommand site.lib.Float)) (working : Working site) :
    working.MeetsAll execution bloom condition slot index commands := by
  induction commands generalizing index working with
  | nil => exact trivial
  | cons command rest ih => exact ⟨fun _ => hall _ _ _, fun next _ => ih (index + 1) next⟩

theorem meetsDecisions_of_values
    (hall : ∀ decision ∈ decisions, ∀ working : Working site,
      working.MeetsValue execution bloom condition decision.1 decision.2)
    (working : Working site) : working.Meets execution bloom condition decisions := by
  induction decisions generalizing working with
  | nil => exact trivial
  | cons decision rest ih =>
    obtain ⟨hfirst, hrest⟩ := List.forall_mem_cons.mp hall
    unfold Meets
    split
    · exact ih hrest working
    · exact ⟨hfirst working, fun next _ => ih hrest next⟩

theorem meetsDecisions_of_forall
    (hall : ∀ slot index working command, condition slot index working command)
    (decisions : List (ℕ × ByteString)) (working : Working site) :
    working.Meets execution bloom condition decisions := by
  refine meetsDecisions_of_values (fun decision _ working payload expired _ _ => ?_) working
  cases payload with
  | sql commands => exact meetsAll_of_forall (hall decision.1) 0 commands expired
  | kv | notify | graph | control => exact trivial

end Imply

section Ongoing

variable (hbusy : working.Ongoing base bloom slot) {index : ℕ}
include hbusy

theorem Ongoing.applySQL (hfresh : working.Fresh slot)
    (hper : (slotsOf working.merged).count slot < maxSQLCommandsPerDecidedValue)
    (hmay : working.known bloom command.requestID = .ok false →
      Permitted execution allowed slot index working command)
    (h : working.applySQL execution bloom slot index command = .ok next) :
    next.Ongoing base bloom slot ∧ working.Extends slot next ∧
      ∀ earlier, Ledger.SettlesSQL allowed slot command (working.ledger earlier)
        (next.ledger earlier) := by
  have hvalid := hbusy.valid
  have hlate : base.tip < slot := by
    have := hbusy.base_le
    have := hbusy.next
    omega
  simp only [Working.applySQL, bind_eq_ok, apply_eq_ok] at h
  obtain ⟨_, hcheck, fingerprint, hprint, known, hknown, h⟩ := h
  have hprint : sqlFingerprint site.lib site.codec command = some fingerprint := by
    unfold orElseError at hprint
    split at hprint
    · rename_i heq
      cases hprint
      exact heq
    · cases hprint
  obtain hdec | ⟨message, row, herror, -⟩ :=
    hvalid.known hfresh hbusy.base_le hbusy.next hbusy.old hbusy.marked command.requestID
  swap
  · rw [hknown] at herror
    cases herror
  cases hknown.symm.trans hdec
  by_cases hseen : command.requestID ≠ [] ∧ (working.merged.lookup command.requestID).isSome
  · rw [if_pos (decide_eq_true hseen)] at h
    cases h
    exact ⟨hbusy, ⟨rfl, .inl rfl⟩, fun earlier =>
      ⟨hcheck, fingerprint, hprint, (if_pos hseen).mpr rfl⟩⟩
  · rw [if_neg (by simpa using hseen)] at h
    have hunknown : working.known bloom command.requestID = .ok false := by
      rw [hknown, decide_eq_false hseen]
    have hnew : command.requestID ≠ [] → working.merged.lookup command.requestID = none :=
      fun hid => Option.not_isSome_iff_eq_none.mp fun hsome => hseen ⟨hid, hsome⟩
    obtain ⟨⟨prepared, outcome⟩, hrun, -⟩ := bind_eq_ok.mp h
    obtain ⟨_, herror, -⟩ | ⟨_, hok, hbook, hvalid', hgrow⟩ :=
      hvalid.executeSQL hfresh hlate hper hnew hrun
    · rw [h] at herror
      cases herror
    cases h.symm.trans hok
    refine ⟨⟨hvalid', ?_, ?_, hbusy.old, hbusy.marked⟩, hgrow, fun earlier => ?_⟩
    · rw [hgrow.tip]
      exact hbusy.base_le
    · rw [hgrow.tip]
      exact hbusy.next
    · exact ⟨hcheck, fingerprint, hprint, (if_neg hseen).mpr
        ⟨outcome, hmay hunknown prepared outcome hrun, hbook earlier⟩⟩

theorem Ongoing.applyAllSQL {commands : List (SQLCommand site.lib.Float)}
    (hfresh : working.Fresh slot) (hper : (slotsOf working.merged).count slot ≤ index)
    (hcount : index + commands.length ≤ maxSQLCommandsPerDecidedValue)
    (hmay : working.MeetsAll execution bloom (Permitted execution allowed) slot index
      commands)
    (h : working.applyAllSQL execution bloom slot index commands = .ok next) :
    next.Ongoing base bloom slot ∧
      ∀ earlier, Ledger.SettlesAllSQL allowed slot commands (working.ledger earlier)
        (next.ledger earlier) := by
  induction commands generalizing working index with
  | nil =>
    cases h
    exact ⟨hbusy, fun _ => rfl⟩
  | cons command rest ih =>
    simp only [Working.applyAllSQL, bind_eq_ok] at h
    obtain ⟨middle, hfirst, hrest⟩ := h
    rw [List.length_cons] at hcount
    obtain ⟨hmid, hgrow, hpaid⟩ := hbusy.applySQL hfresh (by omega) hmay.1 hfirst
    have hmore := hgrow.count_le
    obtain ⟨hnext, hall⟩ := ih hmid (hgrow.fresh hfresh) (by omega) (by omega)
      (hmay.2 middle hfirst) hrest
    exact ⟨hnext, fun earlier => ⟨middle.ledger earlier, hpaid earlier, hall earlier⟩⟩

/-- A command that leaves the receipts of SQL commands alone. -/
theorem Ongoing.of_same (hsql : next.store.sql = working.store.sql)
    (husage : next.store.usage = working.store.usage) (htip : next.store.tip = working.store.tip)
    (hpend : next.pending = working.pending) : next.Ongoing base bloom slot := by
  have hwait : next.waiting = working.waiting := by rw [waiting, waiting, hpend]
  have hmerge : next.merged = working.merged := by rw [merged, merged, hwait, hsql]
  have hvalid := hbusy.valid
  refine ⟨⟨?_, ?_, ?_, ?_, ?_, ?_, ?_, ?_⟩, ?_, ?_, hbusy.old, hbusy.marked⟩
  · rw [hwait]
    exact hvalid.unwritten
  · rw [hwait, hsql]
    exact hvalid.absent
  · rw [hwait]
    exact hvalid.distinct
  · rw [hpend, hsql]
    exact hvalid.written
  · rw [hpend]
    exact hvalid.recent
  · rw [hpend, hsql]
    exact hvalid.old
  · rw [husage, hmerge]
    exact hvalid.usage
  · rw [hmerge]
    exact hvalid.tallied
  · rw [htip]
    exact hbusy.base_le
  · rw [htip]
    exact hbusy.next

theorem Ongoing.applyOneKV {command : KVCommand} (h : working.applyOneKV slot command = .ok next) :
    next.Ongoing base bloom slot ∧
      ∀ earlier, (working.ledger earlier).settleKV slot command = .ok (next.ledger earlier) := by
  simp only [Working.applyOneKV, bind_eq_ok, apply_eq_ok] at h
  obtain ⟨kv, hkv, hnext⟩ := h
  cases hnext
  refine ⟨hbusy.of_same rfl rfl rfl rfl, fun earlier => ?_⟩
  simp only [Ledger.settleKV, Working.ledger, hkv, apply_ok, ok_bind, List.append_assoc]
  rfl

theorem Ongoing.applyAllKV {commands : List KVCommand}
    (h : commands.foldlM (fun working command => working.applyOneKV slot command) working =
      .ok next) :
    next.Ongoing base bloom slot ∧
      ∀ earlier, commands.foldlM (fun ledger command => ledger.settleKV slot command)
        (working.ledger earlier) = .ok (next.ledger earlier) := by
  induction commands generalizing working with
  | nil =>
    cases h
    exact ⟨hbusy, fun _ => rfl⟩
  | cons command rest ih =>
    simp only [List.foldlM_cons, bind_eq_ok] at h ⊢
    obtain ⟨middle, hfirst, hrest⟩ := h
    obtain ⟨hmid, hend⟩ := hbusy.applyOneKV hfirst
    obtain ⟨hnext, hall⟩ := ih hmid hrest
    exact ⟨hnext, fun earlier => ⟨middle.ledger earlier, hend earlier, hall earlier⟩⟩

theorem Ongoing.applyNotify {command : NotifyCommand}
    (h : working.applyNotify slot command = .ok next) :
    next.Ongoing base bloom slot ∧
      ∀ earlier, (working.ledger earlier).settleNotify slot command =
        .ok (next.ledger earlier) := by
  simp only [Working.applyNotify, bind_eq_ok, apply_eq_ok] at h
  obtain ⟨_, hcheck, h⟩ := h
  simp only [Ledger.settleNotify, hcheck, apply_ok, ok_bind]
  by_cases hknown : (working.store.notify.lookup command.requestID).isSome
  · rw [if_pos hknown] at h
    cases h
    exact ⟨hbusy, fun _ => if_pos hknown⟩
  · rw [if_neg hknown] at h
    cases h
    refine ⟨hbusy.of_same rfl rfl rfl rfl, fun earlier => ?_⟩
    rw [ledger, if_neg hknown]
    simp only [ledger, List.append_assoc]
    rfl

end Ongoing

theorem mem_slotsOf_prune {ledger : Ledger site} {recorded : ℕ}
    (hmem : recorded ∈ slotsOf (ledger.prune slot).sql) : recorded ∈ slotsOf ledger.sql := by
  unfold Ledger.prune at hmem
  split at hmem
  · exact hmem
  · rw [slotsOf_retain] at hmem
    exact (List.mem_filter.mp hmem).1

theorem Valid.later {later : ℕ} (hvalid : working.Valid base slot) (hle : slot ≤ later) :
    working.Valid base later :=
  { hvalid with
    recent := fun receipt hmem => (hvalid.recent receipt hmem).imp_right hle.trans'
    tallied := hvalid.tallied.later hle }

/-- A batch between two of its slots. -/
structure Between (base : Store site) (bloom : SQLReceiptBloom) (working : Working site) :
    Prop where
  valid : working.Valid base working.store.tip
  base_le : base.tip ≤ working.store.tip
  old : Tallied site.window base.tip base.sql
  marked : base.MarkedIn bloom

/-- Once expired receipts are gone, the batch is ready for the commands of the slot. -/
structure Ready (base : Store site) (bloom : SQLReceiptBloom) (slot : ℕ)
    (payload : Payload site.lib.Float) (working : Working site) : Prop where
  ongoing : working.Ongoing base bloom slot
  fresh : payload.isControl = false → working.Fresh slot
  none : (slotsOf working.merged).count slot = 0

theorem Between.pruned {pruned : Working site} (hgap : working.Between base bloom)
    (hslot : slot = working.store.tip + 1) (hbook : ∀ earlier,
      pruned.ledger earlier = (working.ledger earlier).prune slot)
    (hvalid : pruned.Valid base slot) (hfresh : pruned.Fresh slot)
    (payload : Payload site.lib.Float) : pruned.Ready base bloom slot payload := by
  have hsame : ((working.ledger []).prune slot).tip = working.store.tip := by
    unfold Ledger.prune
    split <;> rfl
  have htip : pruned.store.tip = working.store.tip := (congrArg Ledger.tip (hbook [])).trans hsame
  refine ⟨⟨hvalid, ?_, ?_, hgap.old, hgap.marked⟩, fun _ => hfresh, ?_⟩
  · rw [htip]
    exact hgap.base_le
  · rw [htip, hslot]
  · rw [List.count_eq_zero]
    intro hmem
    have hsql : pruned.merged = ((working.ledger []).prune slot).sql :=
      congrArg Ledger.sql (hbook [])
    rw [hsql] at hmem
    have := hgap.valid.tallied.late slot (mem_slotsOf_prune hmem)
    omega

theorem Between.expire (hgap : working.Between base bloom) (payload : Payload site.lib.Float)
    (hslot : slot = working.store.tip + 1) (hlen : slot ≤ base.tip + 256) :
    ∃ expired, working.expire slot payload = .ok expired ∧
      expired.Ready base bloom slot payload ∧
      ∀ earlier, expired.ledger earlier = (working.ledger earlier).expire slot payload := by
  have hvalid : working.Valid base slot := hgap.valid.later (by omega)
  unfold Working.expire Ledger.expire
  cases hmanaged : site.managed with
  | false =>
    obtain ⟨pruned, hprune, hbook, hvalid', hfresh⟩ := hvalid.prune hlen
    refine ⟨pruned, by simpa using hprune, hgap.pruned hslot hbook hvalid' hfresh payload, ?_⟩
    simpa using hbook
  | true =>
    cases hcontrol : payload.isControl with
    | true =>
      refine ⟨working, by simp, ⟨⟨hvalid, hgap.base_le, hslot, hgap.old, hgap.marked⟩,
        ?_, ?_⟩, by simp⟩
      · rw [hcontrol]
        nofun
      · rw [List.count_eq_zero]
        intro hmem
        have := hgap.valid.tallied.late slot hmem
        omega
    | false =>
      obtain ⟨flushed, hflush, hsame, hvalid', -⟩ := hvalid.flush
      obtain ⟨pruned, hprune, hbook, hvalid'', hfresh⟩ := hvalid'.prune hlen
      have hbook' : ∀ earlier, pruned.ledger earlier = (working.ledger earlier).prune slot := by
        intro earlier
        rw [hbook, hsame]
      refine ⟨pruned, ?_, hgap.pruned hslot hbook' hvalid'' hfresh payload, ?_⟩
      · simp only [if_true, Bool.false_eq_true, if_false, hflush, ok_bind, hprune]
      · simpa using hbook'

theorem Ready.applyPayload {payload : Payload site.lib.Float}
    (hready : working.Ready base bloom slot payload) (hgot : site.decode value = .ok payload)
    (hmay : working.MeetsPayload execution bloom (Permitted execution allowed) slot payload)
    (h : working.applyPayload execution bloom slot payload = .ok next) :
    next.Ongoing base bloom slot ∧
      ∀ earlier, Ledger.SettlesPayload allowed slot (working.ledger earlier) (next.ledger earlier)
        payload := by
  cases payload with
  | sql commands =>
    refine hready.ongoing.applyAllSQL (hready.fresh rfl) hready.none.le ?_ hmay h
    rw [Nat.zero_add]
    exact site.decode_count value commands hgot
  | kv => exact hready.ongoing.applyAllKV h
  | notify => exact hready.ongoing.applyNotify h
  | graph | control =>
    cases h
    exact ⟨hready.ongoing, fun _ => rfl⟩

theorem Between.applyValue (hgap : working.Between base bloom)
    (hslot : slot = working.store.tip + 1) (hlen : slot ≤ base.tip + 256)
    (hmay : working.MeetsValue execution bloom (Permitted execution allowed) slot value)
    (h : working.applyValue execution bloom slot value = .ok next) :
    next.Between base bloom ∧ next.store.tip = slot ∧
      ∀ earlier, Ledger.Settles allowed slot value (working.ledger earlier)
        (next.ledger earlier) := by
  simp only [Working.applyValue, bind_eq_ok, apply_eq_ok] at h
  obtain ⟨payload, hgot, expired, hdue, applied, happly, hnext⟩ := h
  obtain ⟨expired', hdue', hready, hbook⟩ := hgap.expire payload hslot hlen
  cases hdue.symm.trans hdue'
  obtain ⟨hbusy, hpaid⟩ := hready.applyPayload hgot (hmay payload expired hgot hdue) happly
  cases hnext
  refine ⟨⟨{ hbusy.valid with }, ?_, hgap.old, hgap.marked⟩, rfl, fun earlier => ?_⟩
  · change base.tip ≤ slot
    have := hgap.base_le
    omega
  · refine ⟨payload, applied.ledger earlier, hgot, ?_, rfl⟩
    rw [← hbook]
    exact hpaid earlier

/-- The batch settles the slots of its decisions that come after the tip. -/
theorem Between.applyDecisions {log : ℕ → ByteString} {decisions : List (ℕ × ByteString)}
    (hgap : working.Between base bloom) (hlog : ∀ decision ∈ decisions, decision.2 = log decision.1)
    (hlen : working.store.tip + decisions.length ≤ base.tip + 256)
    (hmay : working.Meets execution bloom (Permitted execution allowed) decisions)
    (h : working.applyDecisions execution bloom decisions = .ok next) :
    next.Between base bloom ∧
      ∀ earlier, Relation.ReflTransGen (Ledger.Step allowed log) (working.ledger earlier)
        (next.ledger earlier) := by
  induction decisions generalizing working with
  | nil =>
    cases h
    exact ⟨hgap, fun _ => .refl⟩
  | cons decision rest ih =>
    obtain ⟨slot, value⟩ := decision
    obtain ⟨hvalue, hrest⟩ := List.forall_mem_cons.mp hlog
    obtain rfl : value = log slot := hvalue
    rw [List.length_cons] at hlen
    simp only [Working.applyDecisions] at h
    simp only [Meets] at hmay
    split at h
    · rename_i hpass
      rw [if_pos hpass] at hmay
      split at h
      · cases h
      · exact ih hgap hrest (by omega) hmay h
    rename_i hnew
    rw [if_neg hnew] at hmay
    split at h
    · cases h
    rename_i hnext
    obtain rfl := not_not.mp hnext
    simp only [bind_eq_ok] at h
    obtain ⟨middle, hfirst, hmore⟩ := h
    obtain ⟨hmid, htip, hpaid⟩ := hgap.applyValue rfl (by omega) hmay.1 hfirst
    obtain ⟨hfinal, hsteps⟩ := ih hmid hrest (by omega) (hmay.2 middle hfirst) hmore
    exact ⟨hfinal, fun earlier => .head (hpaid earlier) (hsteps earlier)⟩

end Working

end Rhiza.Materializer
