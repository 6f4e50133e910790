import Rhiza.Materializer.Settled

/-! # When a batch fails

Where the outcomes of commands are determined, so is what the log settles to. A batch without
local faults then fails for one of two reasons: the log cannot be settled any further, or the
receipt of an earlier execution cannot be read. The counters are never the reason.
-/

namespace Rhiza.Materializer

open Foundations Commands

variable {site : Site}

namespace Ledger

/-- A command has at most one outcome on a database. -/
def Deterministic (allowed : Allowed site) : Prop :=
  ∀ database command outcome outcome', allowed database command outcome →
    allowed database command outcome' → outcome = outcome'

variable {allowed : Allowed site} {slot : ℕ} {ledger first second : Ledger site}

section Unique

variable (hallow : Deterministic allowed)
include hallow

theorem SettlesSQL.unique {command : SQLCommand site.lib.Float}
    (hfirst : SettlesSQL allowed slot command ledger first)
    (htwo : SettlesSQL allowed slot command ledger second) : first = second := by
  obtain ⟨-, fingerprint, hprint, hfirst⟩ := hfirst
  obtain ⟨-, fingerprint', hprint', htwo⟩ := htwo
  cases hprint.symm.trans hprint'
  split at hfirst
  · rename_i hseen
    rw [if_pos hseen] at htwo
    rw [hfirst, htwo]
  · rename_i hseen
    rw [if_neg hseen] at htwo
    obtain ⟨outcome, hout, hfirst⟩ := hfirst
    obtain ⟨outcome', hout', htwo⟩ := htwo
    obtain rfl := hallow _ _ _ _ hout hout'
    exact Except.ok.inj (hfirst.symm.trans htwo)

theorem SettlesAllSQL.unique {commands : List (SQLCommand site.lib.Float)}
    (hfirst : SettlesAllSQL allowed slot commands ledger first)
    (htwo : SettlesAllSQL allowed slot commands ledger second) : first = second := by
  induction commands generalizing ledger with
  | nil => rw [hfirst, htwo]
  | cons command rest ih =>
    obtain ⟨middle, hfirst, hrest⟩ := hfirst
    obtain ⟨middle', htwo, hrest'⟩ := htwo
    obtain rfl := hfirst.unique hallow htwo
    exact ih hrest hrest'

theorem SettlesPayload.unique {payload : Payload site.lib.Float}
    (hfirst : SettlesPayload allowed slot ledger first payload)
    (htwo : SettlesPayload allowed slot ledger second payload) : first = second := by
  cases payload with
  | sql => exact SettlesAllSQL.unique hallow hfirst htwo
  | kv | notify => exact Except.ok.inj (hfirst.symm.trans htwo)
  | graph | control => rw [hfirst, htwo]

theorem Settles.unique {value : ByteString} (hfirst : Settles allowed slot value ledger first)
    (htwo : Settles allowed slot value ledger second) : first = second := by
  obtain ⟨payload, settled, hgot, hpaid, rfl⟩ := hfirst
  obtain ⟨payload', settled', hgot', hpaid', rfl⟩ := htwo
  cases hgot.symm.trans hgot'
  rw [SettlesPayload.unique hallow hpaid hpaid']

end Unique

variable {log : ℕ → ByteString}

theorem Step.tip (hstep : Step allowed log ledger first) : first.tip = ledger.tip + 1 := by
  obtain ⟨payload, settled, -, -, rfl⟩ := hstep
  rfl

theorem steps_tip_le
    (hsteps : Relation.ReflTransGen (Step allowed log) ledger first) : ledger.tip ≤ first.tip := by
  induction hsteps with
  | refl => exact le_rfl
  | tail _ hlast ih =>
    rw [hlast.tip]
    exact ih.trans (Nat.le_succ _)

section Steps

variable (hallow : Deterministic allowed)
  (hfirst : Relation.ReflTransGen (Step allowed log) ledger first)
  (htwo : Relation.ReflTransGen (Step allowed log) ledger second)
include hallow hfirst htwo

/-- Two ledgers that settled the same log from the same start are on one line. -/
theorem steps_unique (hle : first.tip ≤ second.tip) :
    Relation.ReflTransGen (Step allowed log) first second := by
  induction hfirst using Relation.ReflTransGen.head_induction_on with
  | refl => exact htwo
  | head hstep hrest ih =>
    obtain rfl | ⟨middle, hstep', hrest'⟩ := htwo.cases_head
    · have := steps_tip_le hrest
      rw [hstep.tip] at this
      omega
    · obtain rfl := Settles.unique hallow hstep hstep'
      exact ih hrest'

theorem eq_of_steps (htip : first.tip = second.tip) : first = second := by
  obtain rfl | ⟨middle, hstep, hrest⟩ := (steps_unique hallow hfirst htwo htip.le).cases_head
  · rfl
  · have := steps_tip_le hrest
    rw [hstep.tip] at this
    omega

end Steps

end Ledger

/-! ## Failures -/

/-- The decisions of the log from a slot on. -/
def slice (log : ℕ → ByteString) (first count : ℕ) : List (ℕ × ByteString) :=
  (List.range' first count).map fun slot => (slot, log slot)

theorem eq_of_mem_slice {log : ℕ → ByteString} {first count : ℕ} {decision : ℕ × ByteString}
    (hmem : decision ∈ slice log first count) : decision.2 = log decision.1 := by
  obtain ⟨slot, -, rfl⟩ := List.mem_map.mp hmem
  rfl

theorem length_slice (log : ℕ → ByteString) (first count : ℕ) :
    (slice log first count).length = count := by
  rw [slice, List.length_map, List.length_range']

theorem slice_succ (log : ℕ → ByteString) (first count : ℕ) :
    slice log first (count + 1) = (first, log first) :: slice log (first + 1) count := rfl

/-- The errors that do not speak of the receipts' bookkeeping. -/
def ApplyError.ordinary : ApplyError → Bool
  | .underflow | .envelopeCounter | .appeared | .bounds => false
  | .gap | .conflict | .other _ => true

/-- Some stored receipt cannot be read. -/
def Store.Unreadable (store : Store site) : Prop :=
  ∃ requestID row message, store.sql.lookup requestID = some row ∧
    scanReceipt site.window row = .error message

namespace Working

variable {base : Store site} {slot : ℕ} {working : Working site} {bloom : SQLReceiptBloom}
  {allowed : Ledger.Allowed site} {error : ApplyError}

variable {command : SQLCommand site.lib.Float} {fingerprint : ValueHash} {index : ℕ}
  {value : ByteString}

theorem Ongoing.applySQL_error
    (hbusy : working.Ongoing base bloom slot) (hfresh : working.Fresh slot)
    (hper : (slotsOf working.merged).count slot < maxSQLCommandsPerDecidedValue)
    (hmay : working.known bloom command.requestID = .ok false →
      Permitted site.execution allowed slot index working command)
    (h : working.applySQL site.execution bloom slot index command = .error error) :
    error.ordinary = true ∧ (Ledger.Deterministic allowed → base.Unreadable ∨
      ∀ earlier ledger',
        ¬ Ledger.SettlesSQL allowed slot command (working.ledger earlier) ledger') := by
  have hvalid := hbusy.valid
  have hlate : base.tip < slot := by
    have := hbusy.base_le
    have := hbusy.next
    omega
  unfold Working.applySQL at h
  cases hcheck : validateSQLCommand site.lib command with
  | error =>
    rw [hcheck] at h
    cases h
    refine ⟨rfl, fun _ => .inr fun earlier ledger' hpaid => ?_⟩
    have hok := hpaid.1
    rw [hcheck] at hok
    cases hok
  | ok =>
  cases hprint : sqlFingerprint site.lib site.codec command with
  | none =>
    rw [hcheck, hprint] at h
    cases h
    refine ⟨rfl, fun _ => .inr fun earlier ledger' hpaid => ?_⟩
    obtain ⟨-, fingerprint, hsome, -⟩ := hpaid
    rw [hprint] at hsome
    cases hsome
  | some =>
  simp only [hcheck, hprint, orElseError, apply_ok, ok_bind] at h
  obtain hdec | ⟨message, row, herror, hrow, hscan⟩ :=
    hvalid.known hfresh hbusy.base_le hbusy.next hbusy.old hbusy.marked command.requestID
  swap
  · rw [herror] at h
    cases h
    exact ⟨rfl, fun _ => .inl ⟨command.requestID, row, message, hrow, hscan⟩⟩
  rw [hdec, ok_bind] at h
  by_cases hseen : command.requestID ≠ [] ∧ (working.merged.lookup command.requestID).isSome
  · rw [if_pos (decide_eq_true hseen)] at h
    cases h
  rw [if_neg (by simpa using hseen)] at h
  have hnew : command.requestID ≠ [] → working.merged.lookup command.requestID = none :=
    fun hid => Option.not_isSome_iff_eq_none.mp fun hsome => hseen ⟨hid, hsome⟩
  have hunknown : working.known bloom command.requestID = .ok false := by
    rw [hdec, decide_eq_false hseen]
  have hrun : site.execution slot index working.prepared working.store.database command =
      .ok (_, _) := rfl
  obtain ⟨message, herror, hwrap⟩ | ⟨_, hok, -⟩ := hvalid.executeSQL hfresh hlate hper hnew hrun
  swap
  · rw [h] at hok
    cases hok
  cases h.symm.trans herror
  refine ⟨rfl, fun hallow => .inr fun earlier ledger' hpaid => ?_⟩
  obtain ⟨-, fingerprint', hprint', hpaid⟩ := hpaid
  cases hprint.symm.trans hprint'
  obtain ⟨outcome, hout, hbook⟩ := (if_neg hseen).mp hpaid
  obtain rfl := hallow _ _ _ _ hout (hmay hunknown _ _ rfl)
  cases hbook.symm.trans (hwrap earlier)

theorem Ongoing.applyAllSQL_error {commands : List (SQLCommand site.lib.Float)}
    (hbusy : working.Ongoing base bloom slot) (hfresh : working.Fresh slot)
    (hper : (slotsOf working.merged).count slot ≤ index)
    (hcount : index + commands.length ≤ maxSQLCommandsPerDecidedValue)
    (hmay : working.MeetsAll site.execution bloom (Permitted site.execution allowed) slot
      index commands)
    (h : working.applyAllSQL site.execution bloom slot index commands = .error error) :
    error.ordinary = true ∧ (Ledger.Deterministic allowed → base.Unreadable ∨
      ∀ earlier ledger',
        ¬ Ledger.SettlesAllSQL allowed slot commands (working.ledger earlier) ledger') := by
  induction commands generalizing working index with
  | nil => cases h
  | cons command rest ih =>
    rw [List.length_cons] at hcount
    unfold Working.applyAllSQL at h
    cases hfirst : working.applySQL site.execution bloom slot index command with
    | error =>
      rw [hfirst] at h
      cases h
      obtain ⟨hplain, hstuck⟩ := hbusy.applySQL_error hfresh (by omega) hmay.1 hfirst
      refine ⟨hplain, fun hallow => (hstuck hallow).imp_right fun hnone earlier ledger' => ?_⟩
      rintro ⟨middle, hpaid, -⟩
      exact hnone earlier middle hpaid
    | ok middle =>
      rw [hfirst, ok_bind] at h
      obtain ⟨hmid, hgrow, hpaid⟩ := hbusy.applySQL hfresh (by omega) hmay.1 hfirst
      have hmore := hgrow.count_le
      obtain ⟨hplain, hstuck⟩ := ih hmid (hgrow.fresh hfresh) (by omega) (by omega)
        (hmay.2 middle hfirst) h
      refine ⟨hplain, fun hallow => (hstuck hallow).imp_right fun hnone earlier ledger' => ?_⟩
      rintro ⟨other, hother, hrest⟩
      obtain rfl := Ledger.SettlesSQL.unique hallow (hpaid earlier) hother
      exact hnone earlier ledger' hrest

theorem applyAllKV_error {commands : List KVCommand}
    (h : commands.foldlM (fun working command => working.applyOneKV slot command) working =
      .error error) :
    error.ordinary = true ∧ ∀ earlier ledger',
      commands.foldlM (fun ledger command => ledger.settleKV slot command)
        (working.ledger earlier) ≠ .ok ledger' := by
  induction commands generalizing working with
  | nil => cases h
  | cons command rest ih =>
    rw [List.foldlM_cons] at h
    cases hkv : applyKV site.codec site.scan slot command working.store.kv with
    | error message =>
      have hfirst : working.applyOneKV slot command = .error (.other message) := by
        rw [applyOneKV, hkv]
        rfl
      rw [hfirst] at h
      cases h
      refine ⟨rfl, fun earlier ledger' hok => ?_⟩
      rw [List.foldlM_cons, Ledger.settleKV, Working.ledger, hkv] at hok
      cases hok
    | ok =>
      have hfirst : ∃ middle, working.applyOneKV slot command = .ok middle ∧
          ∀ earlier, (working.ledger earlier).settleKV slot command =
            .ok (middle.ledger earlier) := by
        rw [applyOneKV, hkv]
        refine ⟨_, rfl, fun earlier => ?_⟩
        simp only [Ledger.settleKV, Working.ledger, hkv, apply_ok, ok_bind, List.append_assoc]
        rfl
      obtain ⟨middle, hfirst, hend⟩ := hfirst
      rw [hfirst, ok_bind] at h
      obtain ⟨hplain, hstuck⟩ := ih h
      refine ⟨hplain, fun earlier ledger' hok => ?_⟩
      rw [List.foldlM_cons, hend earlier] at hok
      exact hstuck earlier ledger' hok

theorem applyNotify_error {command : NotifyCommand}
    (h : working.applyNotify slot command = .error error) :
    error.ordinary = true ∧ ∀ earlier ledger',
      (working.ledger earlier).settleNotify slot command ≠ .ok ledger' := by
  unfold applyNotify at h
  cases hcheck : checkNotify command with
  | error =>
    rw [hcheck] at h
    cases h
    refine ⟨rfl, fun earlier ledger' hok => ?_⟩
    rw [Ledger.settleNotify, hcheck] at hok
    cases hok
  | ok =>
    rw [hcheck, apply_ok, ok_bind] at h
    split at h <;> cases h

theorem Ready.applyPayload_error {payload : Payload site.lib.Float}
    (hready : working.Ready base bloom slot payload) (hgot : site.decode value = .ok payload)
    (hmay : working.MeetsPayload site.execution bloom (Permitted site.execution allowed) slot
      payload)
    (h : working.applyPayload site.execution bloom slot payload = .error error) :
    error.ordinary = true ∧ (Ledger.Deterministic allowed → base.Unreadable ∨
      ∀ earlier ledger',
        ¬ Ledger.SettlesPayload allowed slot (working.ledger earlier) ledger' payload) := by
  cases payload with
  | sql commands =>
    refine hready.ongoing.applyAllSQL_error (hready.fresh rfl) hready.none.le ?_ hmay h
    rw [Nat.zero_add]
    exact site.decode_count value commands hgot
  | kv => exact (applyAllKV_error h).imp_right fun hstuck _ => .inr hstuck
  | notify => exact (applyNotify_error h).imp_right fun hstuck _ => .inr hstuck
  | graph | control => cases h

theorem Between.applyValue_error (hamid : working.Between base bloom)
    (hslot : slot = working.store.tip + 1) (hlen : slot ≤ base.tip + 256)
    (hmay : working.MeetsValue site.execution bloom (Permitted site.execution allowed) slot
      value)
    (h : working.applyValue site.execution bloom slot value = .error error) :
    error.ordinary = true ∧ (Ledger.Deterministic allowed → base.Unreadable ∨
      ∀ earlier ledger', ¬ Ledger.Settles allowed slot value (working.ledger earlier) ledger') := by
  unfold Working.applyValue at h
  cases hgot : site.decode value with
  | error =>
    rw [hgot] at h
    cases h
    refine ⟨rfl, fun _ => .inr fun earlier ledger' hpaid => ?_⟩
    obtain ⟨payload, settled, hok, -⟩ := hpaid
    rw [hgot] at hok
    cases hok
  | ok payload =>
    obtain ⟨expired, hdue, hready, hbook⟩ := hamid.expire payload hslot hlen
    simp only [hgot, apply_ok, ok_bind, hdue] at h
    cases happly : expired.applyPayload site.execution bloom slot payload with
    | ok =>
      rw [happly] at h
      cases h
    | error =>
      rw [happly] at h
      cases h
      obtain ⟨hplain, hstuck⟩ :=
        hready.applyPayload_error hgot (hmay payload expired hgot hdue) happly
      refine ⟨hplain, fun hallow => (hstuck hallow).imp_right fun hnone earlier ledger' => ?_⟩
      rintro ⟨payload', settled, hgot', hpaid, -⟩
      cases hgot.symm.trans hgot'
      rw [← hbook earlier] at hpaid
      exact hnone earlier settled hpaid

/-- A batch of the log's slots from `first` on. If it does not leave a gap, and the log cannot be
held against it, every ledger that settles the log ends before the last of its slots. -/
theorem Between.applyDecisions_error {log : ℕ → ByteString} {first count : ℕ} (hpos : 0 < first)
    (hamid : working.Between base bloom)
    (hhash : 0 < working.store.tip →
      working.store.tipHash = site.codec.sha256 (coreBytes (log working.store.tip)))
    (hlen : working.store.tip + count ≤ base.tip + 256)
    (hmay : working.Meets site.execution bloom (Permitted site.execution allowed)
      (slice log first count))
    (h : working.applyDecisions site.execution bloom (slice log first count) = .error error) :
    error.ordinary = true ∧ (Ledger.Deterministic allowed → first ≤ working.store.tip + 1 →
      base.Unreadable ∨ ∀ earlier final,
        Relation.ReflTransGen (Ledger.Step allowed log) (working.ledger earlier) final →
          final.tip + 1 < first + count) := by
  induction count generalizing working first with
  | zero => cases h
  | succ count ih =>
    rw [slice_succ] at h hmay
    simp only [Working.applyDecisions] at h
    simp only [Meets] at hmay
    split at h
    · rename_i hpass
      rw [if_pos hpass] at hmay
      split at h
      · rename_i hconflict
        obtain ⟨rfl, hne⟩ := hconflict
        exact absurd (hhash hpos).symm hne
      · obtain ⟨hplain, hstuck⟩ :=
          ih (Nat.succ_pos first) hamid hhash (by omega) hmay h
        refine ⟨hplain, fun hallow _ => (hstuck hallow (by omega)).imp_right ?_⟩
        intro hends earlier final hsteps
        have := hends earlier final hsteps
        omega
    rename_i hnew
    rw [if_neg hnew] at hmay
    split at h
    · rename_i hgap
      cases h
      exact ⟨rfl, fun _ hle => absurd hle (by omega)⟩
    rename_i hnext
    obtain rfl := not_not.mp hnext
    cases hvalue : working.applyValue site.execution bloom (working.store.tip + 1)
        (log (working.store.tip + 1)) with
    | error =>
      rw [hvalue] at h
      cases h
      obtain ⟨hplain, hstuck⟩ := hamid.applyValue_error rfl (by omega) hmay.1 hvalue
      refine ⟨hplain, fun hallow _ => (hstuck hallow).imp_right ?_⟩
      intro hnone earlier final hsteps
      obtain rfl | ⟨middle, hstep, -⟩ := hsteps.cases_head
      · change working.store.tip + 1 < _
        omega
      · exact absurd hstep (hnone earlier middle)
    | ok middle =>
      rw [hvalue, ok_bind] at h
      obtain ⟨hmid, htip, hpaid⟩ := hamid.applyValue rfl (by omega) hmay.1 hvalue
      have hhash' : 0 < middle.store.tip →
          middle.store.tipHash = site.codec.sha256 (coreBytes (log middle.store.tip)) := by
        intro _
        obtain ⟨payload, settled, -, -, hgo⟩ := hpaid []
        rw [htip]
        exact congrArg Ledger.tipHash hgo
      obtain ⟨hplain, hstuck⟩ :=
        ih (Nat.succ_pos _) hmid hhash' (by omega) (hmay.2 middle hvalue) h
      refine ⟨hplain, fun hallow _ => (hstuck hallow (by omega)).imp_right ?_⟩
      intro hends earlier final hsteps
      obtain rfl | ⟨other, hstep, hrest⟩ := hsteps.cases_head
      · change working.store.tip + 1 < _
        omega
      · obtain rfl := Ledger.Settles.unique hallow (hpaid earlier) hstep
        have := hends earlier final hrest
        omega

end Working

end Rhiza.Materializer
