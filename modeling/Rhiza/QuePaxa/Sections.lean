import Mathlib.Data.Finset.Lattice.Lemmas
import Rhiza.QuePaxa.Replica

/-! # What the sections change

For every section of a replica, the fields it may change and the entries it appends.
Statements about runs use these equations and never open the sections themselves.
-/

namespace Rhiza.QuePaxa

open Foundations

namespace WAL

def appendAll (wal : WAL) (entries : List Entry) : WAL :=
  { wal with unsynced := wal.unsynced ++ entries }

@[simp] theorem synced_appendAll (wal : WAL) (entries : List Entry) :
    (wal.appendAll entries).synced = wal.synced := rfl

@[simp] theorem entries_appendAll (wal : WAL) (entries : List Entry) :
    (wal.appendAll entries).entries = wal.entries ++ entries := by
  simp [WAL.entries, appendAll]

theorem append_eq_appendAll (wal : WAL) (entry : Entry) :
    wal.append entry = wal.appendAll [entry] := rfl

@[simp] theorem appendAll_nil (wal : WAL) : wal.appendAll [] = wal := by
  simp [appendAll]

@[simp] theorem appendAll_appendAll (wal : WAL) (left right : List Entry) :
    (wal.appendAll left).appendAll right = wal.appendAll (left ++ right) := by
  simp [appendAll]

end WAL

namespace Core

variable {codec : Codec} {core next : Core} {hash : ValueHash} {value : Bytes}
  {request : RecordRequest} {decided : DecidedValue}

/-- Staging either finds the bytes in place, or appends them for a running compaction
that would drop them, or appends and remembers new bytes. -/
theorem stageValueLocked_cases
    (hstage : core.stageValueLocked hash value = .ok next) :
    (core.values.lookup hash = some value ∧ (∀ kept ∈ core.compactionValues, hash ∈ kept) ∧
        next = core) ∨
      (core.values.lookup hash = some value ∧ next = { core with
        wal := core.wal.append (.proposal hash value)
        compactionValues := core.compactionValues.map (insert hash) }) ∨
      (core.values.lookup hash = none ∧ next = { core with
        wal := core.wal.append (.proposal hash value)
        values := core.values.insert hash value
        compactionValues := core.compactionValues.map (insert hash) }) := by
  unfold stageValueLocked at hstage
  cases hvalue : core.values.lookup hash with
  | none =>
    simp only [hvalue, Except.ok.injEq] at hstage
    exact .inr (.inr ⟨rfl, hstage.symm⟩)
  | some existing =>
    simp only [hvalue] at hstage
    by_cases hsame : existing = value
    · subst hsame
      cases hkept : core.compactionValues with
      | none =>
        simp only [hkept, ne_eq, not_true, if_false, Except.ok.injEq] at hstage
        exact .inl ⟨rfl, nofun, hstage.symm⟩
      | some kept =>
        by_cases hmem : hash ∈ kept
        · simp only [hkept, ne_eq, not_true, if_false, if_pos hmem, Except.ok.injEq] at hstage
          refine .inl ⟨rfl, ?_, hstage.symm⟩
          rintro _ ⟨⟩
          exact hmem
        · simp only [hkept, ne_eq, not_true, if_false, if_neg hmem, Except.ok.injEq] at hstage
          exact .inr (.inl ⟨rfl, hstage.symm⟩)
    · simp only [ne_eq, hsame, not_false_eq_true, if_true, reduceCtorEq] at hstage

theorem stageValue_eq_ok
    (hstage : core.stageValue codec hash value = .ok next) :
    codec.sha256 value = hash ∧ core.stageValueLocked hash value = .ok next := by
  simp only [stageValue, seq_eq_ok, require_eq_ok] at hstage
  exact ⟨hstage.1.2.2, hstage.2⟩

/-- Staging for a record does nothing without an inline value. -/
theorem recordStage_cases
    (hstage : core.recordStage codec request = .ok next) :
    next = core ∨ codec.sha256 request.proposal.value = request.proposal.hash ∧
      core.stageValueLocked request.proposal.hash request.proposal.value = .ok next := by
  unfold recordStage at hstage
  by_cases hinline : request.proposal.value = []
  · rw [if_neg (not_not.mpr hinline)] at hstage
    split at hstage
    · exact .inl (Except.ok.inj hstage).symm
    · simp only [seq_eq_ok, Except.ok.injEq] at hstage
      exact .inl hstage.2.symm
  · rw [if_pos hinline, seq_eq_ok] at hstage
    exact .inr (stageValue_eq_ok hstage.2)

/-- Decision markers of decided slots were appended, and nothing else happened. -/
def Marks (core next : Core) : Prop :=
  ∃ marks : List DecidedValue,
    (∀ mark ∈ marks, ∃ slot, core.decided.lookup slot = some mark) ∧
      next = { core with
        wal := core.wal.appendAll (marks.map Entry.decide)
        logged := core.logged ∪ (marks.map DecidedValue.slot).toFinset }

theorem Marks.refl (core : Core) : core.Marks core :=
  ⟨[], nofun, by simp⟩

theorem Marks.trans {middle : Core} (hleft : core.Marks middle) (hright : middle.Marks next) :
    core.Marks next := by
  obtain ⟨left, hdec, rfl⟩ := hleft
  obtain ⟨right, hdec', rfl⟩ := hright
  refine ⟨left ++ right, ?_, ?_⟩
  · intro mark hmark
    rcases List.mem_append.mp hmark with hmark | hmark
    · exact hdec mark hmark
    · exact hdec' mark hmark
  · simp [Finset.union_assoc, List.toFinset_append]

theorem logDecision_marks {slot : ℕ}
    (hdec : core.decided.lookup slot = some decided) : core.Marks (core.logDecision decided) := by
  unfold logDecision
  split
  · exact Marks.refl core
  · refine ⟨[decided], ?_, ?_⟩
    · simpa using ⟨slot, hdec⟩
    · simp [WAL.append_eq_appendAll, Finset.union_comm core.logged]

theorem logSlots_marks (slots : List ℕ) (core : Core) : core.Marks (logSlots slots core).1 := by
  induction slots generalizing core with
  | nil => exact Marks.refl core
  | cons slot rest ih =>
    unfold logSlots
    split
    · exact ih core
    · cases hdec : core.decided.lookup slot with
      | none => exact Marks.refl core
      | some => exact (logDecision_marks hdec).trans (ih _)

theorem ensureDurableAppend_marks (codec : Codec) (core : Core) (slot : ℕ) :
    core.Marks (core.ensureDurableAppend codec slot).1 := by
  unfold ensureDurableAppend
  split
  · exact Marks.refl core
  split
  · exact Marks.refl core
  split
  · exact Marks.refl core
  split
  · exact Marks.refl core
  split
  · exact Marks.refl core
  dsimp only
  split
  · exact Marks.refl core
  · rename_i decided _ _ _ control _ _
    have hmarks := logSlots_marks
      (slotRange (if control.any ReconfigurationValue.terminal then core.floor + 1 else slot) slot)
      core
    split <;> simp_all

/-- A known decision is answered with its summary, after its marker was appended. -/
theorem answerDecided_spec {summary : Summary}
    {completion : Completion} (hdec : core.decided.lookup request.slot = some decided)
    (hsay : core.answerDecided codec request decided = (next, summary, completion)) :
    core.Marks next ∧ summary = core.decidedSummary request decided ∧
      completion.fromRegister = false := by
  unfold answerDecided at hsay
  split at hsay
  · cases hsay
    exact ⟨Marks.refl core, rfl, rfl⟩
  · split at hsay
    · cases hsay
      exact ⟨logDecision_marks hdec, rfl, rfl⟩
    · cases hsay
      exact ⟨logDecision_marks hdec, rfl, rfl⟩

/-- The hash of a decided slot, zero when it is not decided. -/
def decidedHash (core : Core) (slot : ℕ) : ValueHash :=
  ((core.decided.lookup slot).map DecidedValue.hash).getD 0

theorem markDecisionsDurable_eq (core : Core) (slots : List ℕ) :
    core.markDecisionsDurable slots = { core with
      durable := core.durable ∪ slots.toFinset
      valueDurable := core.valueDurable ∪ (slots.map core.decidedHash).toFinset } := by
  induction slots generalizing core with
  | nil => simp [markDecisionsDurable]
  | cons slot rest ih =>
    have hrest := ih (core.markDecisionDurable slot)
    simp only [markDecisionsDurable, List.foldl_cons] at hrest ⊢
    have hsame : (core.markDecisionDurable slot).decidedHash = core.decidedHash := rfl
    rw [hrest, hsame]
    simp [markDecisionDurable, decidedHash]

/-- Preparing a checkpoint appends the markers of its prefix and its own marker. -/
theorem prepareAppend_eq_ok {checkpoint : CheckpointSeal} {payload : Bytes} {eligible : Bool}
    {prepared : PendingCheckpointPrepare}
    (hmade : core.prepareAppend codec checkpoint payload eligible = .ok (next, prepared)) :
    ∃ middle, core.Marks middle ∧ prepared.root = checkpoint.rootHash ∧ next = { middle with
      wal := middle.wal.append (.checkpointVerified checkpoint)
      pendingPrepares := middle.pendingPrepares.insert checkpoint.index prepared } := by
  simp only [prepareAppend, seq_eq_ok, require_eq_ok] at hmade
  obtain ⟨-, -, -, hmade⟩ := hmade
  have hmarks := logSlots_marks (slotRange (max core.floor core.durableThrough + 1)
    checkpoint.index ++ core.undurableSeals codec checkpoint (codec.sha256 payload)) core
  split at hmade
  · cases hmade
  · rename_i middle hlog
    rw [hlog] at hmarks
    cases hmade
    exact ⟨middle, hmarks, rfl, rfl⟩

end Core

/-- The end of a preparation: its root is the only prepared one, or nothing happens. -/
theorem Replica.complete_prepare (core : Core) (index : ℕ) (prepared : PendingCheckpointPrepare) :
    (∃ err, core.prepareFinish index prepared = .error err ∧
      complete core (.prepare index prepared) = core) ∨
    ∃ next current, core.prepareFinish index prepared = .ok next ∧
      core.pendingPrepares.lookup index = some current ∧ current.root = prepared.root ∧
      complete core (.prepare index prepared) = { core with
        durable := core.durable ∪ (core.stillDecided prepared.durable).toFinset
        valueDurable := core.valueDurable ∪
          ((core.stillDecided prepared.durable).map core.decidedHash).toFinset
        preparedCheckpoints := (∅ : Table ℕ ValueHash).insert index prepared.root
        pendingPrepares := core.pendingPrepares.erase index } := by
  simp only [complete]
  cases hfin : core.prepareFinish index prepared with
  | error err => exact .inl ⟨err, rfl, rfl⟩
  | ok next =>
    simp only [Core.prepareFinish, Core.markDecisionsDurable_eq, seq_eq_ok, require_eq_ok,
      Option.map_eq_some_iff, Prod.mk.injEq, Except.ok.injEq] at hfin
    obtain ⟨⟨current, hnow, -, hroot⟩, rfl⟩ := hfin
    exact .inr ⟨_, current, rfl, hnow, hroot, rfl⟩

/-- The last section of a call only marks slots and values as durable, and finishes
the preparation of a checkpoint. -/
theorem Replica.complete_eq (core : Core) (call : Pending) :
    ∃ durable valueDurable preparedCheckpoints pendingPrepares,
      Replica.complete core call =
        { core with durable, valueDurable, preparedCheckpoints, pendingPrepares } := by
  cases call with
  | storeValue => exact ⟨_, _, _, _, rfl⟩
  | record request summary completion => cases completion <;> exact ⟨_, _, _, _, rfl⟩
  | ensureDurable =>
    simp only [complete, Core.markDecisionsDurable_eq]
    exact ⟨_, _, _, _, rfl⟩
  | prepare index prepared =>
    rcases complete_prepare core index prepared with ⟨_, -, heq⟩ | ⟨_, _, -, -, -, heq⟩
    · exact ⟨_, _, _, _, heq⟩
    · exact ⟨_, _, _, _, heq⟩

namespace Core

variable {codec : Codec} {core next : Core} {middle : Core} {decision : Decision}
  {control : ReconfigurationValue} {request : RecordRequest} {eligible : Bool}

/-- Only the certified prefix and the membership it carries differ. -/
def Advances (core next : Core) : Prop :=
  ∃ tip prefixes configHistory retiredIDs reconfiguration lastAbort membershipVersion,
    next = { core with
      tip, prefixes, configHistory, retiredIDs
      reconfiguration, lastAbort, membershipVersion }

theorem Advances.refl (core : Core) : core.Advances core := ⟨_, _, _, _, _, _, _, rfl⟩

theorem Advances.trans (hleft : core.Advances middle)
    (hright : middle.Advances next) : core.Advances next := by
  obtain ⟨_, _, _, _, _, _, _, rfl⟩ := hleft
  obtain ⟨_, _, _, _, _, _, _, rfl⟩ := hright
  exact ⟨_, _, _, _, _, _, _, rfl⟩

/-- Only the membership differs. -/
def Reconfigures (core next : Core) : Prop :=
  ∃ configHistory retiredIDs reconfiguration lastAbort membershipVersion,
    next = { core with
      configHistory, retiredIDs, reconfiguration, lastAbort, membershipVersion }

theorem Reconfigures.refl (core : Core) : core.Reconfigures core := ⟨_, _, _, _, _, rfl⟩

theorem Reconfigures.advances (hreconfigures : core.Reconfigures next) : core.Advances next := by
  obtain ⟨_, _, _, _, _, rfl⟩ := hreconfigures
  exact ⟨_, _, _, _, _, _, _, rfl⟩

theorem applyFreeze_reconfigures
    (happly : core.applyFreeze decision control = .ok next) : core.Reconfigures next := by
  unfold applyFreeze at happly
  split at happly
  · cases happly
    exact Reconfigures.refl core
  · simp only [seq_eq_ok, Except.ok.injEq] at happly
    obtain ⟨-, -, -, rfl⟩ := happly
    exact ⟨_, _, _, _, _, rfl⟩

theorem applyTerminal_reconfigures
    (happly : core.applyTerminal decision control = .ok next) : core.Reconfigures next := by
  unfold applyTerminal at happly
  split at happly
  · cases happly
  · simp only [seq_eq_ok] at happly
    obtain ⟨-, -, happly⟩ := happly
    split at happly
    · simp only [applyAbort, seq_eq_ok] at happly
      obtain ⟨-, happly⟩ := happly
      split at happly
      · cases happly
      · cases happly
        exact ⟨_, _, _, _, _, rfl⟩
    · cases happly
      exact ⟨_, _, _, _, _, rfl⟩

theorem applyReconfiguration_reconfigures
    (happly : core.applyReconfiguration codec decision = .ok next) : core.Reconfigures next := by
  simp only [applyReconfiguration, bind_eq_ok] at happly
  obtain ⟨control, -, happly⟩ := happly
  cases control with
  | none =>
    cases happly
    exact Reconfigures.refl core
  | some =>
    simp only [seq_eq_ok] at happly
    obtain ⟨-, happly⟩ := happly
    split at happly
    · exact applyTerminal_reconfigures happly
    · exact applyFreeze_reconfigures happly

theorem applyControl_reconfigures {decided : DecidedValue}
    (happly : core.applyControl codec decided = .ok next) : core.Reconfigures next := by
  unfold applyControl at happly
  split at happly
  · obtain ⟨applied, hreconfigure, hnext⟩ := bind_eq_ok.mp (seq_eq_ok.mp happly).2
    cases hnext
    obtain ⟨_, _, _, _, _, rfl⟩ := applyReconfiguration_reconfigures hreconfigure
    exact ⟨_, _, _, _, _, rfl⟩
  · cases happly
    exact Reconfigures.refl core

/-- The prefix moves slot by slot, each after the control it may carry. -/
inductive Climbs (codec : Codec) : Core → Core → Prop
  | refl (core : Core) : Climbs codec core core
  | step {core applied last : Core} (hash : ValueHash) (hran : core.Reconfigures applied)
      (hrest : Climbs codec (applied.extendPrefix codec hash) last) : Climbs codec core last

theorem Climbs.trans {last : Core} (hfirst : core.Climbs codec middle)
    (htwo : middle.Climbs codec last) : core.Climbs codec last := by
  induction hfirst with
  | refl => exact htwo
  | step hash hran hrest ih => exact .step hash hran (ih htwo)

theorem Climbs.advances (hup : core.Climbs codec next) : core.Advances next := by
  induction hup with
  | refl core => exact Advances.refl core
  | step hash hran hrest ih =>
    exact hran.advances.trans (Advances.trans ⟨_, _, _, _, _, _, _, rfl⟩ ih)

theorem Climbs.tip_le (hup : core.Climbs codec next) : core.tip ≤ next.tip := by
  induction hup with
  | refl => exact Nat.le_refl _
  | @step core applied last hash hran hrest ih =>
    obtain ⟨_, _, _, _, _, rfl⟩ := hran
    exact (Nat.le_succ core.tip).trans ih

/-- The retained prefix hashes stay. -/
theorem Climbs.prefixes_lookup (hup : core.Climbs codec next) {slot : ℕ}
    (hslot : slot ≤ core.tip) : next.prefixes.lookup slot = core.prefixes.lookup slot := by
  induction hup with
  | refl => rfl
  | @step core applied last hash hran hrest ih =>
    obtain ⟨_, _, _, _, _, rfl⟩ := hran
    rw [ih (Nat.le_succ_of_le hslot)]
    exact AList.lookup_insert_ne (Nat.ne_of_lt (Nat.lt_succ_of_le hslot))

theorem advanceReconfigurationTipLoop_climbs (fuel : ℕ) (core : Core) :
    core.Climbs codec (advanceReconfigurationTipLoop codec fuel core).1 := by
  induction fuel generalizing core with
  | zero => exact .refl core
  | succ fuel ih =>
    unfold advanceReconfigurationTipLoop
    split
    · exact .refl core
    · split
      · exact .refl core
      · rename_i hgo
        obtain ⟨applied, happly, hnext⟩ := bind_eq_ok.mp (seq_eq_ok.mp hgo).2
        cases hnext
        exact .step _ (applyControl_reconfigures happly) (ih _)

theorem advanceTipLoop_climbs (fuel : ℕ) (core : Core) :
    core.Climbs codec (advanceTipLoop codec fuel core) := by
  induction fuel generalizing core with
  | zero => exact .refl core
  | succ fuel ih =>
    unfold advanceTipLoop
    split
    · exact .refl core
    · exact .step _ (.refl core) (ih _)

theorem advance_climbs (codec : Codec) (core : Core) :
    core.Climbs codec (core.advance codec).1 := by
  unfold advance
  split
  · exact advanceReconfigurationTipLoop_climbs _ core
  · exact advanceTipLoop_climbs _ core

theorem advance_advances (codec : Codec) (core : Core) : core.Advances (core.advance codec).1 :=
  (advance_climbs codec core).advances

/-- An installation moves the prefix, after adding the decision when its slot had none. -/
theorem acceptInstall_climbs (codec : Codec) (core : Core) (decision : Decision) (configID : ℕ) :
    core.Climbs codec (core.acceptInstall codec decision configID).1 ∨
      core.floor < decision.slot ∧ core.decided.lookup decision.slot = none ∧
        (core.installDecision codec { decision with configID }
          (encodeCertificate configID { decision with configID })).Climbs codec
            (core.acceptInstall codec decision configID).1 := by
  unfold acceptInstall
  split
  · exact .inl (.refl core)
  split
  · left
    split
    · exact .refl core
    · split
      · exact advanceReconfigurationTipLoop_climbs _ core
      · exact .refl core
  · rename_i hfloor _ hnone
    exact .inr ⟨Nat.lt_of_not_le hfloor, hnone, advance_climbs codec _⟩

theorem acceptInstall_cases (codec : Codec) (core : Core) (decision : Decision) (configID : ℕ) :
    core.Advances (core.acceptInstall codec decision configID).1 ∨
      core.floor < decision.slot ∧ core.decided.lookup decision.slot = none ∧
        (core.installDecision codec { decision with configID }
          (encodeCertificate configID { decision with configID })).Advances
            (core.acceptInstall codec decision configID).1 := by
  rcases acceptInstall_climbs codec core decision configID with hup | ⟨hfloor, hnone, hup⟩
  · exact .inl hup.advances
  · exact .inr ⟨hfloor, hnone, hup.advances⟩

theorem advanceTipLoop_configHistory (fuel : ℕ) (core : Core) :
    (advanceTipLoop codec fuel core).configHistory = core.configHistory := by
  induction fuel generalizing core with
  | zero => rfl
  | succ fuel ih =>
    unfold advanceTipLoop
    split
    · rfl
    · exact ih _

/-- Without reconfiguration an installation never changes the configuration. -/
theorem acceptInstall_configHistory (hfixed : core.reconfigEnabled = false)
    (decision : Decision) (configID : ℕ) :
    (core.acceptInstall codec decision configID).1.configHistory = core.configHistory := by
  unfold acceptInstall
  split
  · rfl
  split
  · split
    · rfl
    · rw [if_neg (by simp [hfixed])]
  · simp only [advance, installDecision, hfixed, Bool.false_eq_true, if_false]
    exact advanceTipLoop_configHistory _ _

theorem recordGuard_floor_lt
    (hguard : core.recordGuard codec request = .ok ()) : core.floor < request.slot := by
  simp only [recordGuard, seq_eq_ok, compactedError, require_eq_ok] at hguard
  exact hguard.1

/-- An eligible proposal has its bytes in memory. -/
theorem checkpointEligibility_known {hash : ValueHash}
    (hapt : core.checkpointEligibility codec hash eligible = .ok ()) :
    (core.values.lookup hash).isSome := by
  unfold checkpointEligibility at hapt
  split at hapt
  · cases hapt
  · simp [*]

/-- The locked section of a record answers from the decision or from the register. -/
theorem recordApply_cases {summary : Summary} {completion : Completion}
    (hjot : core.recordApply codec request eligible = .ok (next, summary, completion)) :
    core.recordGuard codec request = .ok () ∧
      ((∃ decided, core.decided.lookup request.slot = some decided ∧
          core.answerDecided codec request decided = (next, summary, completion)) ∨
        (core.decided.lookup request.slot = none ∧
          core.checkpointEligibility codec request.proposal.hash eligible = .ok () ∧
          core.valueAvailable request = .ok () ∧
          core.answerRegister request = (next, summary, completion))) := by
  simp only [recordApply, seq_eq_ok] at hjot
  obtain ⟨hguard, hapt, hjot⟩ := hjot
  refine ⟨hguard, ?_⟩
  cases hdec : core.decided.lookup request.slot with
  | some decided =>
    simp only [hdec, Except.ok.injEq] at hjot
    exact .inl ⟨decided, rfl, hjot⟩
  | none =>
    simp only [hdec, seq_eq_ok, Except.ok.injEq] at hjot
    have hplain : core.exactCertified request = false := by simp [exactCertified, hdec]
    simp only [recordEligibility, hplain, Bool.false_eq_true, if_false] at hapt
    exact .inr ⟨rfl, hapt, hjot.1, hjot.2⟩

end Core

end Rhiza.QuePaxa
