import Mathlib.Data.List.TakeWhile
import Rhiza.QuePaxa.Agreement
import Rhiza.QuePaxa.Rooted

/-! # The slot allocator

The proposals of one process take their slots from a counter and give back those they
abandon, at each of the places where the loop of `proposeOwned` can fail. What is given back
is handed out again before the counter moves, so below the counter no slot is lost: it is
decided, held by one proposal, or vacant.
-/

namespace Rhiza.QuePaxa

open Foundations

namespace Core

variable {codec : Codec} {core next : Core}

/-- The certified prefix consists of decided slots. -/
def Contiguous (core : Core) : Prop :=
  ∀ slot, core.floor < slot → slot ≤ core.tip → (core.decided.lookup slot).isSome

theorem Contiguous.extend (hcore : core.Contiguous) {applied : Core}
    (hran : core.Reconfigures applied)
    (hdec : (core.decided.lookup (core.tip + 1)).isSome) (hash : ValueHash) :
    (applied.extendPrefix codec hash).Contiguous := by
  obtain ⟨_, _, _, _, _, rfl⟩ := hran
  intro slot hfloor htip
  rcases Nat.of_le_succ htip with hle | rfl
  · exact hcore slot hfloor hle
  · exact hdec

theorem Contiguous.advanceReconfigurationTipLoop (fuel : ℕ) (hcore : core.Contiguous) :
    (advanceReconfigurationTipLoop codec fuel core).1.Contiguous := by
  induction fuel generalizing core with
  | zero => exact hcore
  | succ fuel ih =>
    unfold Core.advanceReconfigurationTipLoop
    split
    · exact hcore
    · rename_i hdec
      split
      · exact hcore
      · rename_i hadvance
        obtain ⟨applied, happly, hnext⟩ := bind_eq_ok.mp (seq_eq_ok.mp hadvance).2
        cases hnext
        exact ih (hcore.extend (applyControl_reconfigures happly) (by simp [hdec]) _)

theorem Contiguous.advanceTipLoop (fuel : ℕ) (hcore : core.Contiguous) :
    (advanceTipLoop codec fuel core).Contiguous := by
  induction fuel generalizing core with
  | zero => exact hcore
  | succ fuel ih =>
    unfold Core.advanceTipLoop
    split
    · exact hcore
    · rename_i hdec
      exact ih (hcore.extend (.refl core) (by simp [hdec]) _)

theorem isSome_lookup_insert {decided : Table ℕ DecidedValue} {slot : ℕ}
    (hslot : (decided.lookup slot).isSome) (key : ℕ) (value : DecidedValue) :
    ((decided.insert key value).lookup slot).isSome := by
  rw [Table.lookup_insert_eq]
  split
  · rfl
  · exact hslot

theorem Contiguous.acceptInstall (hcore : core.Contiguous) (decision : Decision) (configID : ℕ) :
    (core.acceptInstall codec decision configID).1.Contiguous := by
  unfold Core.acceptInstall
  split
  · exact hcore
  split
  · split
    · exact hcore
    · split
      · exact hcore.advanceReconfigurationTipLoop _
      · exact hcore
  · have hlaid : (core.installDecision codec { decision with configID }
        (encodeCertificate configID { decision with configID })).Contiguous :=
      fun slot hfloor htip => isSome_lookup_insert (hcore slot hfloor htip) _ _
    unfold advance
    split
    · exact hlaid.advanceReconfigurationTipLoop _
    · exact hlaid.advanceTipLoop _

theorem Contiguous.compactCommit (hcore : core.Contiguous) {running : RunningCompaction}
    (hsave : core.compactCommit codec running = .ok next) : next.Contiguous := by
  have htip := compactCommit_tip hsave
  obtain ⟨hfloor, verifier, rfl⟩ := compactCommit_eq_ok hsave
  intro slot hslot hle
  have hkept : running.base.closedThrough < slot := hslot
  change ((core.decided.restrict (running.base.closedThrough < ·)).lookup slot).isSome
  rw [Table.lookup_restrict, if_pos (decide_eq_true hkept)]
  exact hcore slot (hfloor.trans hkept) (hle.trans htip.le)

/-- The scan of a log stops at the floor, with every decision under its own slot and
nothing vacant. -/
theorem recoverEntries_filed {entries : List Entry} {state final : Core × List CheckpointSeal}
    (hscan : recoverEntries codec state entries = .ok final) :
    let Filed := fun core : Core => core.tip ≤ core.floor ∧ core.vacant = [] ∧ ∀ {slot value},
      core.decided.lookup slot = some value → value.certified.slot = slot
    Filed state.1 → Filed final.1 := by
  intro Filed hstate
  apply recoverEntries_induction (motive := fun _ => Filed) _ hscan hstate
  intro before entry after core next _ ⟨htip, hgap, hfiled⟩ hreps
  cases hreps with
  | base hbased =>
    obtain ⟨_, _, _, _, _, rfl⟩ := installMembershipBase_cases hbased
    exact ⟨le_rfl, hgap, fun hget => hfiled (Table.lookup_restrict_some.mp hget).1⟩
  | decide =>
    refine ⟨htip, hgap, fun hget => ?_⟩
    rcases Table.of_lookup_insert hget with ⟨rfl, rfl⟩ | hget
    · rfl
    · exact hfiled hget
  | _ => exact ⟨htip, hgap, hfiled⟩

theorem Contiguous.recoverPrefix {values : List DecidedValue} (hcore : core.Contiguous)
    (hdata : ∀ value ∈ values, (core.decided.lookup value.certified.slot).isSome)
    (hheal : recoverPrefix codec values core = .ok next) : next.Contiguous := by
  induction values generalizing core with
  | nil =>
    cases hheal
    exact hcore
  | cons value rest ih =>
    rw [List.forall_mem_cons] at hdata
    obtain ⟨-, hheal⟩ := seq_eq_ok.mp hheal
    split at hheal
    · exact ih hcore hdata.2 hheal
    · rename_i hslot
      obtain ⟨middle, hnext, hrest⟩ := bind_eq_ok.mp hheal
      simp only [recoverNext, seq_eq_ok] at hnext
      obtain ⟨applied, happly, hnext⟩ := bind_eq_ok.mp hnext.2.2
      cases hnext
      have hran := applyReconfiguration_reconfigures happly
      refine ih (hcore.extend hran (not_not.mp hslot ▸ hdata.1) _) ?_ hrest
      obtain ⟨_, _, _, _, _, rfl⟩ := hran
      exact hdata.2

/-- A started process has a prefix of decided slots and a fresh allocator. -/
theorem reopen_contiguous (hreopen : core.reopen codec = .ok next) :
    next.Contiguous ∧ next.nextSlot = 1 ∧ next.vacant = [] := by
  obtain ⟨_, hframe, -⟩ := reopen_frame hreopen
  obtain ⟨scanned, prepared, decisions, hscan, hpicks, _, _, _, rfl, -, -⟩ := reopen_eq_ok hreopen
  obtain ⟨htip, hgap, hfiled⟩ := recoverEntries_filed hscan ⟨le_rfl, rfl, nofun⟩
  have hscanned : scanned.Contiguous :=
    fun slot hfloor hle => absurd (hfloor.trans_le (hle.trans htip)) (lt_irrefl _)
  have hcont : decisions.Contiguous := by
    unfold recoverDecisions at hpicks
    split at hpicks
    · refine hscanned.recoverPrefix ?_ hpicks
      intro value hmem
      obtain ⟨slot, -, hget⟩ := List.mem_filterMap.mp hmem
      rw [hfiled hget, hget]
      rfl
    · obtain ⟨-, hpicks⟩ := seq_eq_ok.mp hpicks
      cases hpicks
      exact hscanned.advanceTipLoop _
  obtain ⟨_, _, _, _, _, _, _, rfl⟩ := recoverDecisions_advances hpicks
  exact ⟨hcont, congrArg Frame.nextSlot hframe, hgap⟩

/-- What the sections of other calls do to the allocator. -/
structure Follows (core next : Core) : Prop where
  sublist : next.vacant.Sublist core.vacant
  kept : ∀ slot ∈ core.vacant, next.floor < slot → slot ∈ next.vacant
  floor_le : core.floor ≤ next.floor
  decided : ∀ slot, next.floor < slot → (core.decided.lookup slot).isSome →
    (next.decided.lookup slot).isSome
  nextSlot_le : core.nextSlot ≤ next.nextSlot
  jumped : ∀ slot, core.nextSlot ≤ slot → slot < next.nextSlot →
    slot ≤ next.floor ∨ slot ≤ next.tip
  contiguous : core.Contiguous → next.Contiguous

end Core

namespace Replica

variable {codec : Codec} {replica next : Replica} {action : Action}

theorem Changes.isSome_decided {core : Core} (hdid : replica.Changes codec core) {slot : ℕ}
    (hdec : (replica.core.decided.lookup slot).isSome) : (core.decided.lookup slot).isSome := by
  rcases hdid.decided_cases with heq | ⟨decision, -, heq⟩ <;> rw [heq]
  · exact hdec
  · exact Core.isSome_lookup_insert hdec _ _

theorem step_follows (hcrash : action ≠ .crash) (hstep : replica.step codec action = some next) :
    replica.core.Follows next.core := by
  have hacts := step_performs hstep
  have hcont : replica.core.Contiguous → next.core.Contiguous := by
    refine step_induction ?_ (fun decision configID hcore => hcore.acceptInstall decision configID)
      (fun hsave hcore => hcore.compactCommit hsave)
      (fun hreopen => (Core.reopen_contiguous hreopen).1) hstep
    intro core next hfloor htip _ hdecided hcore
    rw [Core.Contiguous, hfloor, htip, hdecided]
    exact hcore
  by_cases hvow : action = .compactCommit
  · subst hvow
    cases hacts with
    | compactCommit hgoing hbar hfirst hsave =>
      obtain ⟨hfloor, verifier, rfl⟩ := Core.compactCommit_eq_ok hsave
      refine ⟨List.filter_sublist, ?_, hfloor.le, ?_, Nat.le_max_left _ _, ?_, hcont⟩
      · intro slot hmem hslot
        exact List.mem_filter.mpr ⟨hmem, decide_eq_true hslot⟩
      · intro slot hslot hdec
        refine (Option.isSome_iff_exists.mp hdec).elim fun value hget => ?_
        exact Option.isSome_of_mem (Table.lookup_restrict_some.mpr ⟨hget, decide_eq_true hslot⟩)
      · intro slot hge hlt
        simp only [Core.pruneSlotAllocator, lt_max_iff, Nat.lt_succ_iff] at hlt
        rcases hlt with hlt | htip | hbase
        · exact absurd hlt (Nat.not_lt.mpr hge)
        · exact .inr htip
        · exact .inl hbase
  · have hdid := hacts.changes hvow hcrash
    obtain ⟨hnext, hfloor, hgap⟩ := hdid.bounds_eq
    refine ⟨hgap ▸ List.Sublist.refl _, fun slot hmem _ => hgap ▸ hmem, hfloor.ge,
      fun slot _ => hdid.isSome_decided, hnext.ge, ?_, hcont⟩
    intro slot hge hlt
    omega

end Replica

/-- Some proposal holds the slot. -/
def Held (held : ℕ → Option ℕ) (slot : ℕ) : Prop := ∃ id, held id = some slot

theorem of_update {held : ℕ → Option ℕ} {id id' slot : ℕ} {new : Option ℕ}
    (h : Function.update held id new id' = some slot) :
    (id' = id ∧ new = some slot) ∨ id' ≠ id ∧ held id' = some slot := by
  by_cases hid : id' = id
  · subst hid
    exact .inl ⟨rfl, by simpa using h⟩
  · exact .inr ⟨hid, by simpa [hid] using h⟩

/-- Proposals hold slots, and new slots were opened, such that no slot is shared and
none below the counter is lost. -/
structure Core.Allots (core : Core) (held : ℕ → Option ℕ) (opened : List ℕ) : Prop where
  contiguous : core.Contiguous
  sorted : core.vacant.Pairwise (· < ·)
  vacant_lt : ∀ slot ∈ core.vacant, slot < core.nextSlot
  exclusive : ∀ {id id' slot}, held id = some slot → held id' = some slot → id = id'
  disjoint : ∀ {slot}, Held held slot → slot ∉ core.vacant
  held_lt : ∀ {slot}, Held held slot → slot < core.nextSlot
  covered : ∀ {slot}, core.floor < slot → slot < core.nextSlot →
    (core.decided.lookup slot).isSome ∨ Held held slot ∨ slot ∈ core.vacant
  opened_nodup : opened.Nodup
  opened_lt : ∀ slot ∈ opened, slot < core.nextSlot

namespace Core

variable {core next : Core} {held : ℕ → Option ℕ} {opened : List ℕ} {id slot : ℕ}

section Allots

variable (hlot : core.Allots held opened) {vacant : List ℕ}
include hlot

/-- A section of another call keeps the slots of the proposals. -/
theorem Allots.follow (haft : core.Follows next) : next.Allots held opened where
  contiguous := haft.contiguous hlot.contiguous
  sorted := hlot.sorted.sublist haft.sublist
  vacant_lt slot hmem := (hlot.vacant_lt slot (haft.sublist.subset hmem)).trans_le haft.nextSlot_le
  exclusive := hlot.exclusive
  disjoint hheld hmem := hlot.disjoint hheld (haft.sublist.subset hmem)
  held_lt hheld := (hlot.held_lt hheld).trans_le haft.nextSlot_le
  covered := by
    intro slot hfloor hlt
    by_cases hold : slot < core.nextSlot
    · rcases hlot.covered (haft.floor_le.trans_lt hfloor) hold with hdec | hheld | hmem
      · exact .inl (haft.decided slot hfloor hdec)
      · exact .inr (.inl hheld)
      · exact .inr (.inr (haft.kept slot hmem hfloor))
    · rcases haft.jumped slot (Nat.le_of_not_lt hold) hlt with hbase | htip
      · exact absurd hfloor (Nat.not_lt.mpr hbase)
      · exact .inl (haft.contiguous hlot.contiguous slot hfloor htip)
  opened_nodup := hlot.opened_nodup
  opened_lt slot hmem := (hlot.opened_lt slot hmem).trans_le haft.nextSlot_le

/-- A proposal takes a slot that nobody holds. -/
theorem Allots.take {nextSlot : ℕ} {opened' : List ℕ} (hid : held id = none)
    (hfree : ¬ Held held slot) (hgap : vacant.Sublist core.vacant) (hslot : slot ∉ vacant)
    (hnext : core.nextSlot ≤ nextSlot) (hlt : slot < nextSlot)
    (hspan : ∀ {other}, core.floor < other → other < nextSlot →
      (core.decided.lookup other).isSome ∨ Held held other ∨ other = slot ∨ other ∈ vacant)
    (hwoke : opened'.Nodup) (hopened_lt : ∀ slot ∈ opened', slot < nextSlot) :
    Allots { core with vacant, nextSlot } (Function.update held id slot) opened' where
  contiguous := hlot.contiguous
  sorted := hlot.sorted.sublist hgap
  vacant_lt other hmem := (hlot.vacant_lt other (hgap.subset hmem)).trans_le hnext
  exclusive := by
    intro left right other hleft hright
    rcases of_update hleft with ⟨rfl, ⟨⟩⟩ | ⟨-, hold⟩ <;>
      rcases of_update hright with ⟨rfl, heq⟩ | ⟨-, hold'⟩
    · rfl
    · exact absurd ⟨right, hold'⟩ hfree
    · exact absurd ⟨left, heq ▸ hold⟩ hfree
    · exact hlot.exclusive hold hold'
  disjoint := by
    intro other ⟨id', hget⟩ hmem
    rcases of_update hget with ⟨-, ⟨⟩⟩ | ⟨-, hget⟩
    · exact hslot hmem
    · exact hlot.disjoint ⟨id', hget⟩ (hgap.subset hmem)
  held_lt := by
    intro other ⟨id', hget⟩
    rcases of_update hget with ⟨-, ⟨⟩⟩ | ⟨-, hget⟩
    · exact hlt
    · exact (hlot.held_lt ⟨id', hget⟩).trans_le hnext
  covered := by
    intro other hfloor hother
    rcases hspan hfloor hother with hdec | ⟨id', hget⟩ | rfl | hmem
    · exact .inl hdec
    · refine .inr (.inl ⟨id', (Function.update_of_ne (fun heq => ?_) _ _).trans hget⟩)
      cases hid.symm.trans (heq ▸ hget)
    · exact .inr (.inl ⟨id, Function.update_self ..⟩)
    · exact .inr (.inr hmem)
  opened_nodup := hwoke
  opened_lt := hopened_lt

/-- Below the counter a slot is decided, held, or worth reusing. -/
theorem Allots.usable (hfloor : core.floor < slot) (hlt : slot < core.nextSlot) :
    (core.decided.lookup slot).isSome ∨ Held held slot ∨ slot ∈ core.usableVacant := by
  rcases hlot.covered hfloor hlt with hdec | hheld | hmem
  · exact .inl hdec
  · exact .inr (.inl hheld)
  rw [← List.takeWhile_append_dropWhile (p := fun slot =>
    decide (slot ≤ core.floor) || (core.decided.lookup slot).isSome) (l := core.vacant),
    List.mem_append] at hmem
  rcases hmem with hmem | hmem
  · have hspent := List.mem_takeWhile_imp hmem
    rw [Bool.or_eq_true, decide_eq_true_eq] at hspent
    exact .inl (hspent.resolve_left (Nat.not_le.mpr hfloor))
  · exact .inr (.inr hmem)

/-- A new slot is opened only when every slot below it is decided or held. -/
theorem Allots.opens (hnone : core.usableVacant = []) (hfloor : core.floor < slot)
    (hlt : slot < max core.nextSlot (max (core.tip + 1) (core.floor + 1))) :
    (core.decided.lookup slot).isSome ∨ Held held slot := by
  by_cases hold : slot < core.nextSlot
  · simpa [hnone] using hlot.usable hfloor hold
  · exact .inl (hlot.contiguous slot hfloor (by omega))

theorem Allots.reserve (hid : held id = none) :
    core.reserveSlot.1.Allots (Function.update held id core.reserveSlot.2.1)
      (if core.reserveSlot.2.2 then opened else core.reserveSlot.2.1 :: opened) := by
  cases huse : core.usableVacant with
  | cons slot rest =>
    have hsuffix : slot :: rest <:+ core.vacant := huse ▸ List.dropWhile_suffix _
    have hslot : slot ∈ core.vacant := hsuffix.subset List.mem_cons_self
    have hsorted := hlot.sorted.sublist hsuffix.sublist
    simp only [reserveSlot, huse, if_true]
    refine hlot.take hid (fun hheld => hlot.disjoint hheld hslot)
      ((List.sublist_cons_self slot rest).trans hsuffix.sublist)
      (fun hmem => (List.rel_of_pairwise_cons hsorted hmem).false) le_rfl
      (hlot.vacant_lt slot hslot) ?_ hlot.opened_nodup hlot.opened_lt
    intro other hfloor hlt
    simpa [huse] using hlot.usable hfloor hlt
  | nil =>
    have hnew := Nat.le_max_left core.nextSlot (max (core.tip + 1) (core.floor + 1))
    simp only [reserveSlot, huse, Bool.false_eq_true, if_false]
    refine hlot.take hid (fun hheld => (hlot.held_lt hheld).not_ge hnew)
      (List.nil_sublist _) List.not_mem_nil (Nat.le_succ_of_le hnew) (Nat.lt_succ_self _) ?_ ?_ ?_
    · intro other hfloor hlt
      rcases Nat.lt_succ_iff_lt_or_eq.mp hlt with hlt | heq
      · exact (hlot.opens huse hfloor hlt).imp_right .inl
      · exact .inr (.inr (.inl heq))
    · exact List.nodup_cons.mpr
        ⟨fun hmem => (hlot.opened_lt _ hmem).not_ge hnew, hlot.opened_nodup⟩
    · intro other hmem
      rcases List.mem_cons.mp hmem with rfl | hmem
      · exact Nat.lt_succ_self _
      · exact (hlot.opened_lt other hmem).trans_le (Nat.le_succ_of_le hnew)

/-- A proposal leaves its slot, which is spent or becomes vacant. -/
theorem Allots.leave (hget : held id = some slot) (hsorted : vacant.Pairwise (· < ·))
    (hgap : ∀ other ∈ vacant, other = slot ∨ other ∈ core.vacant)
    (hkept : ∀ other ∈ core.vacant, other ∈ vacant)
    (hspent : slot ≤ core.floor ∨ (core.decided.lookup slot).isSome ∨ slot ∈ vacant) :
    Allots { core with vacant } (Function.update held id none) opened := by
  have hother : ∀ {id' other}, Function.update held id none id' = some other →
      other ≠ slot ∧ held id' = some other := by
    intro id' other h
    obtain ⟨-, ⟨⟩⟩ | ⟨hne, h⟩ := of_update h
    exact ⟨fun heq => hne (hlot.exclusive h (heq ▸ hget)), h⟩
  have hheld : ∀ {other}, Held (Function.update held id none) other →
      other ≠ slot ∧ Held held other :=
    fun ⟨id', h⟩ => (hother h).imp_right fun h => ⟨id', h⟩
  refine ⟨hlot.contiguous, hsorted, ?_, ?_, ?_, ?_, ?_, hlot.opened_nodup, hlot.opened_lt⟩
  · intro other hmem
    rcases hgap other hmem with rfl | hmem
    · exact hlot.held_lt ⟨id, hget⟩
    · exact hlot.vacant_lt other hmem
  · intro id id' slot hleft hright
    exact hlot.exclusive (hother hleft).2 (hother hright).2
  · intro other hholds hmem
    obtain ⟨hne, hholds⟩ := hheld hholds
    exact hlot.disjoint hholds ((hgap other hmem).resolve_left hne)
  · exact fun hholds => hlot.held_lt (hheld hholds).2
  · intro other hfloor hlt
    rcases hlot.covered hfloor hlt with hdec | ⟨id', hget'⟩ | hmem
    · exact .inl hdec
    · by_cases hid : id' = id
      · subst hid
        cases hget.symm.trans hget'
        exact (hspent.resolve_left (Nat.not_le.mpr hfloor)).imp_right .inr
      · exact .inr (.inl ⟨id', (Function.update_of_ne hid _ _).trans hget'⟩)
    · exact .inr (.inr (hkept other hmem))

theorem Allots.release (hget : held id = some slot) :
    (core.releaseSlot slot).Allots (Function.update held id none) opened := by
  unfold releaseSlot
  split
  · rename_i hspent
    refine hlot.leave hget hlot.sorted (fun _ => .inr) (fun _ hmem => hmem) ?_
    rcases hspent with rfl | hspent
    · exact .inl (Nat.zero_le _)
    · exact hspent
  · rename_i hopen
    have hput := List.orderedInsert_eq_take_drop (· ≤ ·) slot core.vacant
    simp only [not_le] at hput
    have hperm := List.perm_orderedInsert (· ≤ ·) slot core.vacant
    rw [hput] at hperm
    have hle := (hlot.sorted.imp le_of_lt).orderedInsert (r := (· ≤ ·)) slot _
    refine hlot.leave hget ?_ ?_ ?_ (.inr (.inr ?_))
    · rw [hput] at hle
      exact (hle.and (hperm.nodup_iff.mpr (List.nodup_cons.mpr ⟨by tauto,
        hlot.sorted.imp ne_of_lt⟩))).imp fun h => lt_of_le_of_ne h.1 h.2
    · exact fun other hmem => List.mem_cons.mp (hperm.mem_iff.mp hmem)
    · exact fun other hmem => hperm.mem_iff.mpr (List.mem_cons_of_mem _ hmem)
    · exact hperm.mem_iff.mpr List.mem_cons_self

end Allots

theorem Advances.decided_eq (hgo : core.Advances next) : next.decided = core.decided :=
  congrArg Votes.decided hgo.votes

/-- An installation leaves its slot behind the floor or decided. -/
theorem acceptInstall_settles (codec : Codec) (core : Core) (decision : Decision) (configID : ℕ) :
    decision.slot ≤ (core.acceptInstall codec decision configID).1.floor ∨
      ((core.acceptInstall codec decision configID).1.decided.lookup decision.slot).isSome := by
  by_cases hfloor : decision.slot ≤ core.floor
  · exact .inl (by simpa only [acceptInstall, if_pos hfloor] using hfloor)
  right
  cases hdec : core.decided.lookup decision.slot with
  | some =>
    rcases acceptInstall_cases codec core decision configID with hgo | ⟨-, hnone, -⟩
    · rw [hgo.decided_eq, hdec]
      rfl
    · cases hdec.symm.trans hnone
  | none =>
    simp only [acceptInstall, if_neg hfloor, hdec]
    rw [(advance_advances codec _).decided_eq]
    exact Option.isSome_of_mem (AList.lookup_insert _)

end Core

namespace Allocator

/-- Where a call of `proposeOwned` stands: which call of its loop it makes, with which slot. -/
inductive Place where
  | top
  | reserved (slot : ℕ)
  | recoverThrough (slot : ℕ)
  | ready (slot : ℕ)
  | waitTip (slot : ℕ)
  | calculateLeaderSchedule (slot : ℕ)
  | encodeLeaderSchedule (slot : ℕ)
  | waitLeaderSchedule (slot : ℕ)
  | runSlot (slot : ℕ)
  | acceptDecision (decision : Decision)
  | completeDecision

namespace Place

/-- The slot that was reserved and is neither released nor decided. -/
def slot : Place → Option ℕ
  | .top | .completeDecision => none
  | .reserved slot | .recoverThrough slot | .ready slot | .waitTip slot
  | .calculateLeaderSchedule slot | .encodeLeaderSchedule slot | .waitLeaderSchedule slot
  | .runSlot slot => slot
  | .acceptDecision decision => decision.slot

/-- The exits of the loop: the call made here fails, or its context is cancelled. After the
decision is accepted the call may also return its result. -/
def exit (core : Core) : Place → Option Core
  | .top => core
  | .reserved _ | .ready _ => none
  | .recoverThrough slot => core.releaseSlot slot
  | .waitTip slot => core.releaseSlot slot
  | .calculateLeaderSchedule slot => core.releaseSlot slot
  | .encodeLeaderSchedule slot => core.releaseSlot slot
  | .waitLeaderSchedule slot => core.releaseSlot slot
  | .runSlot slot => core.releaseSlot slot
  | .acceptDecision decision => core.releaseSlot decision.slot
  | .completeDecision => core

/-- The call made here succeeds. Another value than the offered one sends the loop back. -/
def pass (core : Core) : Place → Option Place
  | .reserved slot =>
    some (if core.reconfigEnabled ∧ core.tip + 16 < slot then .recoverThrough slot
      else .ready slot)
  | .recoverThrough slot => some (.ready slot)
  | .ready slot =>
    some (if core.isLeaderScheduleSlot slot then .waitTip slot else .waitLeaderSchedule slot)
  | .waitTip slot => some (.calculateLeaderSchedule slot)
  | .calculateLeaderSchedule slot => some (.encodeLeaderSchedule slot)
  | .encodeLeaderSchedule slot => some (.waitLeaderSchedule slot)
  | .waitLeaderSchedule slot => some (.runSlot slot)
  | .completeDecision => some .top
  | .top | .runSlot _ | .acceptDecision _ => none

theorem slot_pass {core : Core} {place next : Place} (h : place.pass core = some next) :
    next.slot = place.slot := by
  cases place with
  | reserved | ready =>
    cases h
    split <;> rfl
  | top | runSlot | acceptDecision => cases h
  | _ =>
    cases h
    rfl

end Place

/-- The slots that the calls hold. -/
def slotOf (places : Table ℕ Place) (id : ℕ) : Option ℕ := (places.lookup id).bind Place.slot

theorem slotOf_insert (places : Table ℕ Place) (id : ℕ) (place : Place) :
    slotOf (places.insert id place) = Function.update (slotOf places) id place.slot := by
  funext other
  rcases eq_or_ne other id with rfl | hid
  · simp [slotOf]
  · simp [slotOf, hid]

theorem slotOf_erase (places : Table ℕ Place) (id : ℕ) :
    slotOf (places.erase id) = Function.update (slotOf places) id none := by
  funext other
  rcases eq_or_ne other id with rfl | hid
  · simp [slotOf]
  · simp [slotOf, hid]

/-- A call that goes on without giving up or taking a slot. -/
theorem slotOf_insert_of_eq {places : Table ℕ Place} {id : ℕ} {place : Place}
    (h : place.slot = slotOf places id) : slotOf (places.insert id place) = slotOf places := by
  rw [slotOf_insert, h, Function.update_eq_self]

end Allocator

/-- The calls of `proposeOwned` of one process, and the slots that were handed out as not
reused. -/
structure Allocator where
  replica : Replica
  places : Table ℕ Allocator.Place
  opened : List ℕ

namespace Allocator

/-- Everything but the steps of the loop is a section of another call. -/
inductive Event where
  | call (id : ℕ)
  | reserve (id : ℕ)
  | pass (id : ℕ)
  | decide (id : ℕ) (decision : Decision)
  | accept (id : ℕ) (configID : ℕ)
  | exit (id : ℕ)
  | perform (action : Action)

def start (core : Core) : Allocator := ⟨.opened core, ∅, []⟩

variable (codec : Codec)

def step (allocator : Allocator) : Event → Option Allocator
  | .call id =>
    if allocator.places.lookup id = none then
      some { allocator with places := allocator.places.insert id .top }
    else none
  | .reserve id =>
    match allocator.places.lookup id with
    | some .top =>
      let (core, slot, reused) := allocator.replica.core.reserveSlot
      some {
        replica := { allocator.replica with core }
        places := allocator.places.insert id (.reserved slot)
        opened := if reused then allocator.opened else slot :: allocator.opened }
    | _ => none
  | .pass id => do
    let place ← allocator.places.lookup id
    let place ← place.pass allocator.replica.core
    some { allocator with places := allocator.places.insert id place }
  | .decide id decision =>
    match allocator.places.lookup id with
    | some (.runSlot slot) =>
      if decision.slot = slot then
        some { allocator with places := allocator.places.insert id (.acceptDecision decision) }
      else none
    | _ => none
  | .accept id configID =>
    match allocator.places.lookup id with
    | some (.acceptDecision decision) => do
      let replica ← allocator.replica.step codec (.install decision configID)
      if (allocator.replica.core.acceptInstall codec decision configID).2.isOk then
        some { allocator with replica, places := allocator.places.insert id .completeDecision }
      else
        some { allocator with
          replica := { replica with core := replica.core.releaseSlot decision.slot }
          places := allocator.places.erase id }
    | _ => none
  | .exit id => do
    let place ← allocator.places.lookup id
    let core ← place.exit allocator.replica.core
    some { allocator with
      replica := { allocator.replica with core }
      places := allocator.places.erase id }
  | .perform action =>
    if action = .crash then none
    else do
      let replica ← allocator.replica.step codec action
      some { allocator with replica }

def run (allocator : Allocator) (events : List Event) : Option Allocator :=
  runFrom (step codec) allocator events

variable {codec} {allocator next : Allocator}

/-- Every exit gives back the slot that is held. -/
theorem Place.exit_allots {core core' : Core} {held : ℕ → Option ℕ} {opened : List ℕ} {id : ℕ}
    {place : Place} (hlot : core.Allots held opened) (hheld : held id = place.slot)
    (hexit : place.exit core = some core') :
    core'.Allots (Function.update held id none) opened := by
  cases place with
  | top | completeDecision =>
    cases hexit
    rwa [Function.update_eq_self_iff.mpr hheld.symm]
  | reserved | ready => cases hexit
  | _ =>
    cases hexit
    exact hlot.release hheld

theorem step_allots {event : Event} (hstep : allocator.step codec event = some next)
    (hlot : allocator.replica.core.Allots (slotOf allocator.places) allocator.opened) :
    next.replica.core.Allots (slotOf next.places) next.opened := by
  cases event with
  | call id =>
    simp only [step] at hstep
    split at hstep
    · rename_i hnew
      cases hstep
      rwa [slotOf_insert_of_eq (by rw [slotOf, hnew]; rfl)]
    · cases hstep
  | reserve id =>
    simp only [step] at hstep
    split at hstep
    · rename_i htop
      cases hstep
      rw [slotOf_insert]
      exact hlot.reserve (by rw [slotOf, htop]; rfl)
    · cases hstep
  | pass id =>
    obtain ⟨place, hplace, hstep⟩ := Option.bind_eq_some_iff.mp hstep
    obtain ⟨after, hpass, ⟨⟩⟩ := Option.bind_eq_some_iff.mp hstep
    rwa [slotOf_insert_of_eq (by rw [Place.slot_pass hpass, slotOf, hplace]; rfl)]
  | decide id decision =>
    simp only [step] at hstep
    split at hstep
    · rename_i slot hplace
      split at hstep
      · rename_i hslot
        cases hstep
        rwa [slotOf_insert_of_eq (by rw [slotOf, hplace, Place.slot, hslot]; rfl)]
      · cases hstep
    · cases hstep
  | accept id configID =>
    simp only [step] at hstep
    split at hstep
    · rename_i decision hplace
      obtain ⟨replica, hinstall, hstep⟩ := Option.bind_eq_some_iff.mp hstep
      have hnext := hlot.follow (Replica.step_follows (by simp) hinstall)
      have hheld : slotOf allocator.places id = some decision.slot := by
        rw [slotOf, hplace]
        rfl
      split at hstep
      · cases hstep
        rw [slotOf_insert]
        cases Replica.step_performs hinstall with
        | install =>
          exact hnext.leave hheld hnext.sorted (fun _ => .inr) (fun _ hmem => hmem)
            ((Core.acceptInstall_settles ..).imp_right .inl)
      · cases hstep
        rw [slotOf_erase]
        exact hnext.release hheld
    · cases hstep
  | exit id =>
    obtain ⟨place, hplace, hstep⟩ := Option.bind_eq_some_iff.mp hstep
    obtain ⟨core, hexit, ⟨⟩⟩ := Option.bind_eq_some_iff.mp hstep
    rw [slotOf_erase]
    exact Place.exit_allots hlot (by rw [slotOf, hplace]; rfl) hexit
  | perform action =>
    simp only [step] at hstep
    split at hstep
    · cases hstep
    · rename_i hcrash
      obtain ⟨replica, hact, ⟨⟩⟩ := Option.bind_eq_some_iff.mp hstep
      exact hlot.follow (Replica.step_follows hcrash hact)

/-- A process starts with no proposals. -/
theorem allots_start {core : Core} (hcont : core.Contiguous) (hnext : core.nextSlot = 1)
    (hgap : core.vacant = []) : core.Allots (slotOf ∅) [] := by
  refine ⟨hcont, ?_, ?_, nofun, nofun, nofun, ?_, List.nodup_nil, nofun⟩
  · simp [hgap]
  · simp [hgap]
  · omega

/-- Whatever log a process starts from and however its proposals interleave with other calls,
no slot is held by two proposals, the vacant slots are increasing and nobody holds one, every slot
between the floor and the counter is decided, held or vacant, a new slot is opened only when those
below it are decided or held, and no slot is opened twice. -/
theorem run_allots {before core : Core} (hopen : before.reopen codec = .ok core)
    {events : List Event} {last : Allocator} (hrun : (start core).run codec events = some last) :
    (∀ id id' slot, slotOf last.places id = some slot → slotOf last.places id' = some slot →
      id = id') ∧
    last.replica.core.vacant.Pairwise (· < ·) ∧
    (∀ slot, Held (slotOf last.places) slot → slot ∉ last.replica.core.vacant) ∧
    (∀ slot, last.replica.core.floor < slot → slot < last.replica.core.nextSlot →
      (last.replica.core.decided.lookup slot).isSome ∨ Held (slotOf last.places) slot ∨
        slot ∈ last.replica.core.vacant) ∧
    (last.replica.core.reserveSlot.2.2 = false →
      ∀ slot, last.replica.core.floor < slot → slot < last.replica.core.reserveSlot.2.1 →
        (last.replica.core.decided.lookup slot).isSome ∨ Held (slotOf last.places) slot) ∧
    last.opened.Nodup := by
  obtain ⟨hcont, hnext, hvacant⟩ := Core.reopen_contiguous hopen
  have hlast : last.replica.core.Allots (slotOf last.places) last.opened :=
    (guarded_of_forall (fun _ _ => trivial) _).invariant
      (fun hallots _ hstep => step_allots hstep hallots) hrun (allots_start hcont hnext hvacant)
  refine ⟨fun _ _ _ => hlast.exclusive, hlast.sorted, fun _ => hlast.disjoint,
    fun _ => hlast.covered, ?_, hlast.opened_nodup⟩
  intro hnew slot hfloor hlt
  cases husable : last.replica.core.usableVacant with
  | cons => simp [Core.reserveSlot, husable] at hnew
  | nil =>
    simp only [Core.reserveSlot, husable] at hlt
    exact hlast.opens husable hfloor hlt

/-- One proposal is decided at slot one, the other is cancelled while it waits for the leader
schedule; a third gets its slot. -/
def cancelledEvents : List Event :=
  [.call 0, .reserve 0, .call 1, .reserve 1, .pass 0, .pass 0, .pass 0,
    .decide 0 (World.leaderDecision [7]), .perform (.check (World.leaderDecision [7])),
    .accept 0 1, .pass 1, .pass 1, .exit 1, .call 2, .reserve 2]

theorem run_allots_again :
    let core := newCore (World.trio.member [65]) ⟨[], []⟩
    let run := (start core).run (.tabled []) cancelledEvents
    core.reopen (.tabled []) = .ok core ∧
      run.map (fun last => (slotOf last.places 2, last.opened, last.replica.core.tip)) =
        some (some 2, [2, 1], 1) ∧
      ∀ last ∈ run, last.opened.Nodup := by
  intro core run
  have hopen : core.reopen (.tabled []) = .ok core := rfl
  exact ⟨hopen, by decide +kernel, fun _ hlast => (run_allots hopen hlast).2.2.2.2.2⟩

end Allocator

end Rhiza.QuePaxa
