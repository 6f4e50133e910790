import Rhiza.QuePaxa.Log

/-! # What a replay restores

A restart scans the synced log from an empty replica. Every entry has a fixed effect
on the state, so facts about the restored replica are inductions on the part of the
log that was scanned. The prefix and the prepared checkpoints are rebuilt afterwards
and touch nothing else.
-/

namespace Rhiza.QuePaxa

open Foundations

namespace Core

/-- The effect of an entry on the replica that is being restored. -/
inductive Replays (codec : Codec) (core : Core) : Entry → Core → Prop
  | base {base generationAnchorHash based}
      (hbased : installMembershipBase codec { core with generationAnchorHash } base = .ok based) :
      Replays codec core (.checkpoint base) (based.installBase base)
  | verified {checkpoint} : Replays codec core (.checkpointVerified checkpoint) core
  | proposal {hash value} (hhash : codec.sha256 value = hash) :
      Replays codec core (.proposal hash value) { core with
        values := core.values.insert hash value
        valueDurable := insert hash core.valueDurable }
  | skipped {slot hash state reconfiguration}
      (hskip : slot = 0 ∨ (core.decided.lookup slot).isSome) :
      Replays codec core (.receipt slot hash state reconfiguration) core
  | receipt {slot hash state reconfiguration} (hslot : slot ≠ 0)
      (hunset : core.decided.lookup slot = none) :
      Replays codec core (.receipt slot hash state reconfiguration)
        { core with recorders := core.recorders.insert slot state }
  | marker : Replays codec core .reconfigurationMarker core
  | decide {value : DecidedValue}
      (hhash : codec.sha256 value.value = value.certified.proposal.hash)
      (hsame : ∀ existing ∈ core.decided.lookup value.certified.slot,
        existing.hash = value.certified.proposal.hash) :
      Replays codec core (.decide value) { core.installDecision codec value.certified
          value.certificate with
        valueDurable := insert value.certified.proposal.hash core.valueDurable
        durable := insert value.certified.slot (core.durable.erase value.certified.slot)
        logged := insert value.certified.slot (core.logged.erase value.certified.slot) }

variable {codec : Codec} {core next : Core} {base : ConsensusBase}

theorem installMembershipBase_cases
    (hput : core.installMembershipBase codec base = .ok next) :
    ∃ configHistory retiredIDs baseMembership lastAbort membershipVersion,
      next = { core with
        configHistory, retiredIDs, baseMembership, lastAbort, membershipVersion } := by
  unfold installMembershipBase at hput
  split at hput
  · split at hput
    · split at hput
      · cases hput
        exact ⟨_, _, _, _, _, rfl⟩
      · cases hput
    · obtain ⟨verifier, -, hput⟩ := bind_eq_ok.mp hput
      cases hput
      exact ⟨_, _, _, _, _, rfl⟩
  · split at hput
    · cases hput
    · cases hput
      exact ⟨_, _, _, _, _, rfl⟩

theorem recoverBase_replays
    (hheal : core.recoverBase codec base = .ok next) :
    core.Replays codec (.checkpoint base) next := by
  simp only [recoverBase, seq_eq_ok] at hheal
  obtain ⟨anchored, htie, hheal⟩ := bind_eq_ok.mp hheal.2
  obtain ⟨based, hbased, hheal⟩ := bind_eq_ok.mp hheal
  simp only [seq_eq_ok, Except.ok.injEq] at hheal
  obtain ⟨-, rfl⟩ := hheal
  unfold installGenerationAnchorBase at htie
  split at htie
  · cases htie
  · cases htie
    exact .base hbased

theorem recoverReceipt_replays {slot : ℕ} {hash : ValueHash} {state : ISR} {reconfiguration : Bool}
    (hheal : core.recoverReceipt codec slot state reconfiguration = .ok next) :
    core.Replays codec (.receipt slot hash state reconfiguration) next := by
  simp only [recoverReceipt, seq_eq_ok] at hheal
  obtain ⟨-, -, hheal⟩ := hheal
  split at hheal
  · cases hheal
    exact .skipped ‹_›
  · rename_i hkeep
    cases hheal
    rw [not_or, Bool.not_eq_true, Option.isSome_eq_false_iff, Option.isNone_iff_eq_none] at hkeep
    exact .receipt hkeep.1 hkeep.2

theorem recoverDecision_replays {value : DecidedValue}
    (hheal : core.recoverDecision codec value = .ok next) :
    core.Replays codec (.decide value) next := by
  simp only [recoverDecision, seq_eq_ok, require_eq_ok, Except.ok.injEq] at hheal
  obtain ⟨⟨-, hhash⟩, -, hsame, rfl⟩ := hheal
  exact .decide hhash hsame

theorem recoverEntry_replays {state after : Core × List CheckpointSeal} {entry : Entry}
    (hheal : recoverEntry codec state entry = .ok after) :
    state.1.Replays codec entry after.1 := by
  cases entry with
  | checkpoint =>
    obtain ⟨core, hbase, hafter⟩ := bind_eq_ok.mp hheal
    cases hafter
    exact recoverBase_replays hbase
  | checkpointVerified =>
    obtain ⟨-, hafter⟩ := seq_eq_ok.mp hheal
    cases hafter
    exact .verified
  | proposal =>
    obtain ⟨core, hprop, hafter⟩ := bind_eq_ok.mp hheal
    cases hafter
    simp only [recoverProposal, seq_eq_ok, require_eq_ok, Except.ok.injEq] at hprop
    obtain ⟨-, ⟨-, hhash⟩, rfl⟩ := hprop
    exact .proposal hhash
  | receipt =>
    obtain ⟨core, hslip, hafter⟩ := bind_eq_ok.mp hheal
    cases hafter
    exact recoverReceipt_replays hslip
  | reconfigurationMarker =>
    obtain ⟨-, hafter⟩ := seq_eq_ok.mp hheal
    cases hafter
    exact .marker
  | decide =>
    obtain ⟨core, hdecide, hafter⟩ := bind_eq_ok.mp hheal
    cases hafter
    exact recoverDecision_replays hdecide

/-- What every entry preserves, given the part of the log before it, holds after the
scan of the whole log. -/
theorem recoverEntries_induction {motive : List Entry → Core → Prop} {entries : List Entry}
    (hstep : ∀ {before entry after core next}, before ++ entry :: after = entries →
      motive before core → core.Replays codec entry next → motive (before ++ [entry]) next)
    {state final : Core × List CheckpointSeal}
    (hscan : recoverEntries codec state entries = .ok final) (hstart : motive [] state.1) :
    motive entries final.1 := by
  have hgeneral : ∀ (after before : List Entry) (state : Core × List CheckpointSeal),
      before ++ after = entries → motive before state.1 →
        recoverEntries codec state after = .ok final → motive entries final.1 := by
    -- The scanned part grows by the entry that the scan consumes.
    intro after
    induction after with
    | nil =>
      intro before state hsplit hstate hscan
      cases hscan
      rw [List.append_nil] at hsplit
      exact hsplit ▸ hstate
    | cons entry rest ih =>
      intro before state hsplit hstate hscan
      obtain ⟨next, hentry, hrest⟩ := bind_eq_ok.mp hscan
      refine ih (before ++ [entry]) next (by simpa using hsplit) ?_ hrest
      exact hstep hsplit hstate (recoverEntry_replays hentry)
  exact hgeneral entries [] state rfl hstart hscan

end Core

/-- A recovery base can only stand at the head of a log. -/
def Headed (entries : List Entry) : Prop := ∀ base, Entry.checkpoint base ∉ entries.tail

theorem Headed.eq_nil {entries before after : List Entry} {base : ConsensusBase}
    (hhead : Headed entries) (hsplit : before ++ .checkpoint base :: after = entries) :
    before = [] := by
  cases before with
  | nil => rfl
  | cons =>
    refine absurd ?_ (hhead base)
    rw [← hsplit]
    simp

theorem Headed.append_left {front back : List Entry} (hhead : Headed (front ++ back)) :
    Headed front := by
  intro base hmem
  cases front with
  | nil => cases hmem
  | cons => exact hhead base (List.mem_append_left back hmem)

/-- Entries other than bases may follow. -/
theorem Headed.append {front back : List Entry} (hhead : Headed front)
    (hback : ∀ base, .checkpoint base ∉ back) : Headed (front ++ back) := by
  intro base hmem
  cases front with
  | nil => exact hback base (List.mem_of_mem_tail hmem)
  | cons =>
    rcases List.mem_append.mp hmem with hmem | hmem
    · exact hhead base hmem
    · exact hback base hmem

/-- The register that a receipt of the slot carries. -/
def Entry.register (slot : ℕ) : Entry → Option ISR
  | .receipt slot' _ state _ => if slot' = slot then some state else none
  | _ => none

@[simp] theorem Entry.register_receipt_self (slot : ℕ) (hash : ValueHash) (state : ISR)
    (reconfiguration : Bool) :
    (Entry.receipt slot hash state reconfiguration).register slot = some state :=
  if_pos rfl

variable {slot : ℕ}

theorem Entry.register_receipt_of_ne {slot' : ℕ} (hne : slot' ≠ slot) (hash : ValueHash)
    (state : ISR) (reconfiguration : Bool) :
    (Entry.receipt slot' hash state reconfiguration).register slot = none :=
  if_neg hne

/-- The register of the last receipt of a slot. -/
def lastReceipt (slot : ℕ) (entries : List Entry) : Option ISR :=
  (entries.filterMap (Entry.register slot)).getLast?

variable {entry : Entry}

theorem lastReceipt_append_of_none (hnone : entry.register slot = none)
    (entries : List Entry) : lastReceipt slot (entries ++ [entry]) = lastReceipt slot entries := by
  simp [lastReceipt, List.filterMap_append, hnone]

theorem lastReceipt_append_of_some {state : ISR}
    (hsome : entry.register slot = some state) (entries : List Entry) :
    lastReceipt slot (entries ++ [entry]) = some state := by
  simp [lastReceipt, List.filterMap_append, hsome]

/-- The value whose bytes an entry carries. -/
def Entry.carried : Entry → Option ValueHash
  | .proposal hash _ => some hash
  | .decide value => some value.certified.proposal.hash
  | _ => none

/-- Some entry carries the bytes of the value. -/
def Carries (entries : List Entry) (hash : ValueHash) : Prop :=
  ∃ entry ∈ entries, entry.carried = some hash

/-- A marker as it is stored again. -/
def DecidedValue.stored (value : DecidedValue) : DecidedValue where
  slot := value.certified.slot
  hash := value.certified.proposal.hash
  value := value.value
  certificate := value.certificate

namespace Core

/-- What the replica holds after the scan of a log. -/
structure Restored (codec : Codec) (entries : List Entry) (core : Core) : Prop where
  floor_of_base : ∀ {base}, .checkpoint base ∈ entries → core.floor = base.closedThrough
  floor_of_none : (∀ base, .checkpoint base ∉ entries) → core.floor = 0
  decided_source : ∀ {slot decided}, core.decided.lookup slot = some decided →
    ∃ value, .decide value ∈ entries ∧ slot = value.certified.slot ∧ decided = value.stored
  decided_of_mem : ∀ {value}, .decide value ∈ entries →
    ∃ decided, core.decided.lookup value.certified.slot = some decided ∧
      decided.hash = value.certified.proposal.hash
  register_of_undecided : ∀ {slot}, slot ≠ 0 → core.decided.lookup slot = none →
    core.recorders.lookup slot = lastReceipt slot entries
  register_of_decided : ∀ {slot}, (core.decided.lookup slot).isSome →
    core.recorders.lookup slot = none
  register_zero : core.recorders.lookup 0 = none
  durable_iff : ∀ {slot}, slot ∈ core.durable ↔ (core.decided.lookup slot).isSome
  logged_iff : ∀ {slot}, slot ∈ core.logged ↔ (core.decided.lookup slot).isSome
  value_of_carries : ∀ {hash}, Carries entries hash → (core.values.lookup hash).isSome
  carries_of_value : ∀ {hash}, (core.values.lookup hash).isSome → Carries entries hash
  value_hash : ∀ {hash value}, core.values.lookup hash = some value → codec.sha256 value = hash
  carries_of_durable : ∀ {hash}, hash ∈ core.valueDurable → Carries entries hash

variable {codec : Codec} {core next : Core} {entries : List Entry} {entry : Entry}

theorem carries_append {hash : ValueHash} :
    Carries (entries ++ [entry]) hash ↔ Carries entries hash ∨ entry.carried = some hash := by
  simp [Carries, or_and_right, exists_or]

theorem restored_newCore (codec : Codec) (options : CoreOptions) (wal : WAL) :
    (newCore options wal).Restored codec [] where
  floor_of_base := nofun
  floor_of_none _ := rfl
  decided_source := nofun
  decided_of_mem := nofun
  register_of_undecided _ _ := rfl
  register_of_decided := nofun
  register_zero := rfl
  durable_iff := ⟨nofun, nofun⟩
  logged_iff := ⟨nofun, nofun⟩
  value_of_carries := nofun
  carries_of_value := nofun
  value_hash := nofun
  carries_of_durable := nofun

variable {before : List Entry} {values : Table ValueHash Bytes} {valueDurable : Finset ValueHash}
  {hash : ValueHash}

/-- The values at hand are those the log carries. -/
structure Holds (codec : Codec) (entries : List Entry) (values : Table ValueHash Bytes)
    (valueDurable : Finset ValueHash) : Prop where
  value_of_carries : ∀ {hash}, Carries entries hash → (values.lookup hash).isSome
  carries_of_value : ∀ {hash}, (values.lookup hash).isSome → Carries entries hash
  value_hash : ∀ {hash value}, values.lookup hash = some value → codec.sha256 value = hash
  carries_of_durable : ∀ {hash}, hash ∈ valueDurable → Carries entries hash

section Holds

variable (hholds : Holds codec before values valueDurable)
include hholds

theorem Holds.append (hcarried : entry.carried = none) :
    Holds codec (before ++ [entry]) values valueDurable := by
  have hbear : ∀ {hash}, Carries (before ++ [entry]) hash ↔ Carries before hash := by
    simp [carries_append, hcarried]
  exact ⟨fun h => hholds.value_of_carries (hbear.mp h),
    fun h => hbear.mpr (hholds.carries_of_value h), hholds.value_hash,
    fun h => hbear.mpr (hholds.carries_of_durable h)⟩

theorem Holds.insert {value : Bytes} (hcarried : entry.carried = some hash)
    (hhash : codec.sha256 value = hash) :
    Holds codec (before ++ [entry]) (values.insert hash value) (insert hash valueDurable) := by
  have hbear : ∀ {other},
      Carries (before ++ [entry]) other ↔ Carries before other ∨ hash = other := by
    simp [carries_append, hcarried]
  refine ⟨?_, ?_, ?_, ?_⟩
  · intro other hother
    rw [Table.lookup_insert_eq]
    split
    · rfl
    · rename_i hne
      rcases hbear.mp hother with hold | heq
      · exact hholds.value_of_carries hold
      · exact absurd heq.symm hne
  · intro other hother
    rw [Table.lookup_insert_eq] at hother
    split at hother
    · exact hbear.mpr (.inr (Eq.symm ‹_›))
    · exact hbear.mpr (.inl (hholds.carries_of_value hother))
  · intro other bytes hget
    rcases Table.of_lookup_insert hget with ⟨rfl, rfl⟩ | hget
    · exact hhash
    · exact hholds.value_hash hget
  · intro other hother
    rcases Finset.mem_insert.mp hother with rfl | hold
    · exact hbear.mpr (.inr rfl)
    · exact hbear.mpr (.inl (hholds.carries_of_durable hold))

end Holds

theorem Restored.holds (hcore : core.Restored codec before) :
    Holds codec before core.values core.valueDurable where
  __ := hcore

section Restored

variable (hcore : core.Restored codec before)
include hcore

/-- An entry that is no base and no marker leaves the floor and the decisions in place. -/
theorem Restored.append {recorders : Table ℕ ISR} (hbase : ∀ base, entry ≠ .checkpoint base)
    (hdecide : ∀ value, entry ≠ .decide value)
    (hunset : ∀ {slot}, slot ≠ 0 → core.decided.lookup slot = none →
      recorders.lookup slot = lastReceipt slot (before ++ [entry]))
    (hdec : ∀ {slot}, (core.decided.lookup slot).isSome → recorders.lookup slot = none)
    (hzero : recorders.lookup 0 = none)
    (hholds : Holds codec (before ++ [entry]) values valueDurable) :
    Restored codec (before ++ [entry]) { core with recorders, values, valueDurable } := by
  have hmem : ∀ {other}, other ∈ before ++ [entry] → other ∈ before ∨ other = entry := by
    simp
  refine ⟨?_, ?_, ?_, ?_, hunset, hdec, hzero, hcore.durable_iff, hcore.logged_iff,
    hholds.value_of_carries, hholds.carries_of_value, hholds.value_hash,
    hholds.carries_of_durable⟩
  · exact fun h => hcore.floor_of_base ((hmem h).resolve_right fun heq => hbase _ heq.symm)
  · exact fun hnone => hcore.floor_of_none fun base hold =>
      hnone base (List.mem_append_left _ hold)
  · intro slot decided hget
    obtain ⟨value, hvalue, hrest⟩ := hcore.decided_source hget
    exact ⟨value, List.mem_append_left _ hvalue, hrest⟩
  · exact fun h => hcore.decided_of_mem ((hmem h).resolve_right fun heq => hdecide _ heq.symm)

/-- An entry that carries no value, no decision and no base, and no register of an
undecided slot, leaves everything in place. -/
theorem Restored.inert {entry : Entry} (hcarried : entry.carried = none)
    (hbase : ∀ base, entry ≠ .checkpoint base)
    (hreg : ∀ {slot}, slot ≠ 0 → core.decided.lookup slot = none → entry.register slot = none) :
    core.Restored codec (before ++ [entry]) := by
  refine hcore.append hbase ?_ ?_ hcore.register_of_decided hcore.register_zero
    (hcore.holds.append hcarried)
  · rintro value rfl
    cases hcarried
  · intro slot hslot hnone
    rw [lastReceipt_append_of_none (hreg hslot hnone)]
    exact hcore.register_of_undecided hslot hnone

theorem Restored.proposal {value : Bytes} (hhash : codec.sha256 value = hash) :
    Restored codec (before ++ [.proposal hash value]) { core with
      values := core.values.insert hash value
      valueDurable := insert hash core.valueDurable } := by
  refine hcore.append nofun nofun ?_ hcore.register_of_decided hcore.register_zero
    (hcore.holds.insert rfl hhash)
  intro slot hslot hnone
  rw [lastReceipt_append_of_none rfl]
  exact hcore.register_of_undecided hslot hnone

theorem Restored.receipt {slot : ℕ} {state : ISR} {reconfiguration : Bool}
    (hslot : slot ≠ 0) (hunset : core.decided.lookup slot = none) :
    Restored codec (before ++ [.receipt slot hash state reconfiguration])
      { core with recorders := core.recorders.insert slot state } := by
  refine hcore.append nofun nofun ?_ ?_ ?_ (hcore.holds.append rfl)
  · intro other hother hnone
    rw [Table.lookup_insert_eq]
    split
    · rename_i heq
      rw [heq, lastReceipt_append_of_some (Entry.register_receipt_self ..)]
    · rename_i hne
      rw [lastReceipt_append_of_none (Entry.register_receipt_of_ne (Ne.symm hne) ..)]
      exact hcore.register_of_undecided hother hnone
  · intro other hother
    rw [Table.lookup_insert_eq, if_neg]
    · exact hcore.register_of_decided hother
    · rintro rfl
      rw [hunset] at hother
      cases hother
  · rw [Table.lookup_insert_eq, if_neg hslot.symm]
    exact hcore.register_zero

theorem Restored.decide {value : DecidedValue}
    (hhash : codec.sha256 value.value = value.certified.proposal.hash)
    (hsame : ∀ existing ∈ core.decided.lookup value.certified.slot, existing.hash =
      value.certified.proposal.hash) :
    Restored codec (before ++ [.decide value])
      { core.installDecision codec value.certified value.certificate with
        valueDurable := insert value.certified.proposal.hash core.valueDurable
        durable := insert value.certified.slot (core.durable.erase value.certified.slot)
        logged := insert value.certified.slot (core.logged.erase value.certified.slot) } := by
  have hget : ∀ slot, (core.installDecision codec value.certified value.certificate).decided.lookup
      slot = if slot = value.certified.slot then some value.stored else core.decided.lookup slot :=
    fun slot => Table.lookup_insert_eq _ _ _ _
  have hholds := hcore.holds.insert (show (Entry.decide value).carried = some _ from rfl) hhash
  refine ⟨?_, ?_, ?_, ?_, ?_, ?_, ?_, ?_, ?_, hholds.value_of_carries, hholds.carries_of_value,
    hholds.value_hash, hholds.carries_of_durable⟩
  · intro base hbase
    exact hcore.floor_of_base (by simpa using hbase)
  · exact fun hnone => hcore.floor_of_none fun base hold =>
      hnone base (List.mem_append_left _ hold)
  · intro slot decided hdec
    rw [hget] at hdec
    split at hdec
    · rename_i heq
      exact ⟨value, by simp, heq, (Option.some_inj.mp hdec).symm⟩
    · obtain ⟨value', hvalue', hrest⟩ := hcore.decided_source hdec
      exact ⟨value', List.mem_append_left _ hvalue', hrest⟩
  · intro value' hvalue'
    rw [hget]
    -- A second marker of a slot has the hash of the first one.
    split
    · rename_i heq
      refine ⟨_, rfl, ?_⟩
      rcases List.mem_append.mp hvalue' with hold | hnew
      · obtain ⟨decided, hdec, hdecidedHash⟩ := hcore.decided_of_mem hold
        rw [heq] at hdec
        exact (hsame decided hdec).symm.trans hdecidedHash
      · obtain rfl : value' = value := by simpa using hnew
        rfl
    · rename_i hne
      rcases List.mem_append.mp hvalue' with hold | hnew
      · exact hcore.decided_of_mem hold
      · obtain rfl : value' = value := by simpa using hnew
        exact absurd rfl hne
  · intro slot hslot hnone
    rw [hget] at hnone
    split at hnone
    · cases hnone
    · rename_i hne
      rw [lastReceipt_append_of_none rfl]
      refine Eq.trans ?_ (hcore.register_of_undecided hslot hnone)
      exact (Table.lookup_erase_eq _ _ _).trans (if_neg hne)
  · intro slot hsome
    refine (Table.lookup_erase_eq _ _ _).trans ?_
    split
    · rfl
    · rename_i hne
      rw [hget, if_neg hne] at hsome
      exact hcore.register_of_decided hsome
  · refine (Table.lookup_erase_eq _ _ _).trans ?_
    split
    · rfl
    · exact hcore.register_zero
  · intro slot
    rw [hget]
    by_cases heq : slot = value.certified.slot
    · simp [heq]
    · simp [heq, hcore.durable_iff]
  · intro slot
    rw [hget]
    by_cases heq : slot = value.certified.slot
    · simp [heq]
    · simp [heq, hcore.logged_iff]

end Restored

/-- A base at the head of the log only moves the floor. -/
theorem Restored.base (hcore : core.Restored codec []) (base : ConsensusBase) :
    (core.installBase base).Restored codec [.checkpoint base] := by
  have hdec : ∀ slot, core.decided.lookup slot = none := by
    intro slot
    by_contra hsome
    obtain ⟨decided, hget⟩ := Option.ne_none_iff_exists'.mp hsome
    obtain ⟨_, hmem, -⟩ := hcore.decided_source hget
    cases hmem
  have hpeers : ∀ slot, core.recorders.lookup slot = none := by
    intro slot
    by_cases hslot : slot = 0
    · rw [hslot]
      exact hcore.register_zero
    · exact hcore.register_of_undecided hslot (hdec slot)
  have hdata : ∀ hash, core.values.lookup hash = none := by
    intro hash
    by_contra hsome
    obtain ⟨_, hmem, -⟩ := hcore.carries_of_value (Option.isSome_iff_ne_none.mpr hsome)
    cases hmem
  have hpart : ∀ {κ α : Type} [DecidableEq κ] (table : Table κ α) (keep : κ → Bool) (key : κ),
      table.lookup key = none → (table.restrict keep).lookup key = none := by
    intro κ α _ table keep key hnone
    rw [Table.lookup_restrict, hnone, ite_self]
  have hnone : ∀ slot, (core.installBase base).decided.lookup slot = none :=
    fun slot => hpart _ _ slot (hdec slot)
  have hnoValue : ∀ hash, (core.installBase base).values.lookup hash = none :=
    fun hash => hpart core.values _ hash (hdata hash)
  refine ⟨?_, ?_, ?_, ?_, ?_, ?_, ?_, ?_, ?_, ?_, ?_, ?_, ?_⟩
  · intro base' hbase
    obtain rfl : base' = base := by simpa using hbase
    rfl
  · exact fun hnone => absurd (List.mem_singleton_self _) (hnone base)
  · exact fun hget => absurd ((hnone _).symm.trans hget) nofun
  · intro value hmem
    simp at hmem
  · exact fun _ _ => hpart _ _ _ (hpeers _)
  · exact fun _ => hpart _ _ _ (hpeers _)
  · exact hpart _ _ _ (hpeers 0)
  · intro slot
    have hfix : slot ∉ core.durable := by simp [hcore.durable_iff, hdec slot]
    exact iff_of_false (fun hmem => hfix (Finset.mem_filter.mp hmem).1) (by simp [hnone slot])
  · intro slot
    have hlog : slot ∉ core.logged := by simp [hcore.logged_iff, hdec slot]
    exact iff_of_false (fun hmem => hlog (Finset.mem_filter.mp hmem).1) (by simp [hnone slot])
  · rintro hash ⟨entry, hmem, hcarried⟩
    obtain rfl : entry = .checkpoint base := by simpa using hmem
    cases hcarried
  · intro hash hsome
    rw [hnoValue] at hsome
    cases hsome
  · exact fun hget => absurd ((hnoValue _).symm.trans hget) nofun
  · intro hash hmem
    obtain ⟨_, hmem', -⟩ := hcore.carries_of_durable (Finset.mem_filter.mp hmem).1
    cases hmem'

theorem Restored.replays {before after : List Entry}
    (hhead : Headed entries) (hsplit : before ++ entry :: after = entries)
    (hcore : core.Restored codec before) (hreps : core.Replays codec entry next) :
    next.Restored codec (before ++ [entry]) := by
  cases hreps with
  | base hbased =>
    obtain rfl := hhead.eq_nil hsplit
    obtain ⟨_, _, _, _, _, rfl⟩ := installMembershipBase_cases hbased
    refine Restored.base ?_ _
    cases hcore
    constructor <;> assumption
  | verified => exact hcore.inert rfl nofun fun _ _ => rfl
  | proposal hhash => exact hcore.proposal hhash
  | @skipped slot hash state reconfiguration hskip =>
    refine hcore.inert rfl nofun fun {other} hother hnone => ?_
    simp only [Entry.register, ite_eq_right_iff]
    rintro rfl
    rcases hskip with rfl | hsome
    · exact absurd rfl hother
    · rw [hnone] at hsome
      cases hsome
  | receipt hslot hunset => exact hcore.receipt hslot hunset
  | marker => exact hcore.inert rfl nofun fun _ _ => rfl
  | decide hhash hsame => exact hcore.decide hhash hsame

/-- The scan of a log restores what the log says. -/
theorem recoverEntries_restored (hhead : Headed entries)
    {state final : Core × List CheckpointSeal} (hstart : state.1.Restored codec [])
    (hscan : recoverEntries codec state entries = .ok final) : final.1.Restored codec entries :=
  recoverEntries_induction (fun hsplit hcore => hcore.replays hhead hsplit) hscan hstart

/-- What neither a replay nor the replay of the prefix touches. -/
structure Frame where
  options : CoreOptions
  nextSlot : ℕ
  compactionValues : Option (Finset ValueHash)
  wal : WAL

def frame (core : Core) : Frame where
  options := core.toCoreOptions
  nextSlot := core.nextSlot
  compactionValues := core.compactionValues
  wal := core.wal

theorem Replays.frame (hreps : core.Replays codec entry next) : next.frame = core.frame := by
  cases hreps with
  | base hbased =>
    obtain ⟨_, _, _, _, _, rfl⟩ := installMembershipBase_cases hbased
    rfl
  | _ => rfl

theorem recoverEntries_frame {state final : Core × List CheckpointSeal}
    (hscan : recoverEntries codec state entries = .ok final) : final.1.frame = state.1.frame := by
  have hstep : ∀ {before : List Entry} {entry : Entry} {after : List Entry} {core next : Core},
      before ++ entry :: after = entries → core.frame = state.1.frame →
        core.Replays codec entry next → next.frame = state.1.frame :=
    fun _ hcore hreps => hreps.frame.trans hcore
  exact recoverEntries_induction hstep hscan rfl

theorem recoverNext_climbs {value : DecidedValue}
    (hnext : core.recoverNext codec value = .ok next) : core.Climbs codec next := by
  simp only [recoverNext, seq_eq_ok] at hnext
  obtain ⟨applied, happly, hnext⟩ := bind_eq_ok.mp hnext.2.2
  cases hnext
  exact .step _ (applyReconfiguration_reconfigures happly) (.refl _)

theorem recoverPrefix_climbs {values : List DecidedValue}
    (hheal : recoverPrefix codec values core = .ok next) : core.Climbs codec next := by
  induction values generalizing core with
  | nil =>
    cases hheal
    exact .refl _
  | cons value rest ih =>
    obtain ⟨-, hheal⟩ := seq_eq_ok.mp hheal
    split at hheal
    · exact ih hheal
    · obtain ⟨middle, hnext, hrest⟩ := bind_eq_ok.mp hheal
      exact (recoverNext_climbs hnext).trans (ih hrest)

theorem recoverDecisions_climbs (hheal : core.recoverDecisions codec = .ok next) :
    core.Climbs codec next := by
  unfold recoverDecisions at hheal
  split at hheal
  · exact recoverPrefix_climbs hheal
  · obtain ⟨-, hheal⟩ := seq_eq_ok.mp hheal
    cases hheal
    exact advanceTipLoop_climbs _ core

theorem recoverDecisions_advances (hheal : core.recoverDecisions codec = .ok next) :
    core.Advances next :=
  (recoverDecisions_climbs hheal).advances

theorem recoverPrepared_eq_ok {prepared : List CheckpointSeal}
    (hheal : recoverPrepared codec prepared core = .ok next) :
    ∃ preparedCheckpoints, next = { core with preparedCheckpoints } := by
  induction prepared generalizing core with
  | nil =>
    cases hheal
    exact ⟨_, rfl⟩
  | cons checkpoint rest ih =>
    simp only [recoverPrepared, seq_eq_ok] at hheal
    obtain ⟨-, -, hheal⟩ := hheal
    obtain ⟨_, rfl⟩ := ih hheal
    exact ⟨_, rfl⟩

/-- A restart scans the log, replays the prefix, and may mark the log. -/
theorem reopen_eq_ok (hopen : core.reopen codec = .ok next) :
    ∃ scanned prepared decisions,
      recoverEntries codec (newCore core.toCoreOptions core.wal.crash, []) core.wal.synced =
          .ok (scanned, prepared) ∧
      scanned.recoverDecisions codec = .ok decisions ∧
      ∃ preparedCheckpoints membershipVersion wal,
        next = { decisions with preparedCheckpoints, membershipVersion, wal } ∧
        wal.unsynced = [] ∧ (wal.synced = core.wal.synced ∨
          wal.synced = core.wal.synced ++ [.reconfigurationMarker]) ∧
        recoverPrepared codec prepared decisions = .ok { decisions with preparedCheckpoints } := by
  obtain ⟨recovered, hheal, hmark⟩ := bind_eq_ok.mp hopen
  obtain ⟨⟨scanned, prepared⟩, hscan, hheal⟩ := bind_eq_ok.mp hheal
  obtain ⟨decisions, hpicks, hheal⟩ := bind_eq_ok.mp hheal
  obtain ⟨restored, hprep, hheal⟩ := bind_eq_ok.mp hheal
  obtain ⟨preparedCheckpoints, rfl⟩ := recoverPrepared_eq_ok hprep
  have hscan' : recoverEntries codec (newCore core.toCoreOptions core.wal.crash, [])
      core.wal.synced =
        .ok (scanned, prepared) := by
    simpa only [newCore, WAL.entries_crash] using hscan
  have hwal : decisions.wal = core.wal.crash := by
    rw [(recoverDecisions_advances hpicks).wal_eq]
    exact congrArg Frame.wal (recoverEntries_frame hscan)
  cases hheal
  refine ⟨scanned, prepared, decisions, hscan', hpicks, preparedCheckpoints, ?_⟩
  dsimp only at hmark
  split at hmark
  · cases hmark
    exact ⟨_, _, rfl, rfl, .inr (by simp [hwal]), hprep⟩
  · cases hmark
    exact ⟨_, _, rfl, by simp [hwal, WAL.crash], .inl (by simp [hwal]), hprep⟩

/-- A restarted replica holds what its synced log says. -/
theorem reopen_restored (hhead : Headed core.wal.synced)
    (hopen : core.reopen codec = .ok next) : next.Restored codec core.wal.synced := by
  obtain ⟨scanned, prepared, decisions, hscan, hpicks, _, _, _, rfl, -, -⟩ := reopen_eq_ok hopen
  have hmend := recoverEntries_restored hhead (restored_newCore ..) hscan
  obtain ⟨_, _, _, _, _, _, _, rfl⟩ := recoverDecisions_advances hpicks
  cases hmend
  constructor <;> assumption

section Reopen

variable (hopen : core.reopen codec = .ok next)
include hopen

/-- A restarted replica keeps its identity and its synced log, and forgets the rest. -/
theorem reopen_frame :
    ∃ wal, next.frame = { core.frame with nextSlot := 1, compactionValues := none, wal } ∧
      wal.unsynced = [] ∧ (wal.synced = core.wal.synced ∨
        wal.synced = core.wal.synced ++ [.reconfigurationMarker]) := by
  obtain ⟨scanned, prepared, decisions, hscan, hpicks, _, _, wal, rfl, hunsynced, hsync, -⟩ :=
    reopen_eq_ok hopen
  refine ⟨wal, ?_, hunsynced, hsync⟩
  have hframe := recoverEntries_frame hscan
  obtain ⟨_, _, _, _, _, _, _, rfl⟩ := recoverDecisions_advances hpicks
  simp only [frame, newCore, Frame.mk.injEq] at hframe ⊢
  simp [hframe]

/-- The reopened log is synced. At most a marker of the log format is new. -/
theorem reopen_log :
    next.wal.entries = next.wal.synced ∧ ∃ added,
      (∀ entry ∈ added, entry = .reconfigurationMarker) ∧
        next.wal.synced = core.wal.synced ++ added := by
  obtain ⟨wal, hframe, hunsynced, hsync⟩ := reopen_frame hopen
  rw [show next.wal = wal from congrArg Frame.wal hframe]
  refine ⟨by rw [WAL.entries, hunsynced, List.append_nil], ?_⟩
  rcases hsync with heq | heq
  · exact ⟨[], by simp, by rw [heq, List.append_nil]⟩
  · exact ⟨[.reconfigurationMarker], by simp, heq⟩

theorem synced_subset_reopen : core.wal.synced ⊆ next.wal.synced := by
  obtain ⟨-, added, -, heq⟩ := reopen_log hopen
  rw [heq]
  exact List.subset_append_left _ _

theorem mem_reopen {entry : Entry} (hmem : entry ∈ next.wal.entries) :
    entry ∈ core.wal.synced ∨ entry = .reconfigurationMarker := by
  obtain ⟨hlist, added, hadded, heq⟩ := reopen_log hopen
  rw [hlist, heq] at hmem
  exact (List.mem_append.mp hmem).imp_right (hadded entry)

end Reopen

end Core

end Rhiza.QuePaxa
