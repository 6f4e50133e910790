import Rhiza.QLog.Handle

/-! # What a returned sync promises

A completed fsync makes the active segment durable as long as no earlier fsync of it
failed and dropped bytes. Under that condition every sync call that returns without an
error, shared ones included, tells the truth. The handle itself does not enforce the
condition: after a failed fsync it stays usable.
-/

namespace Rhiza.QLog

open Foundations

universe u

variable {α : Type u} {size : α → ℕ}

namespace Handle

variable {handle next last : Handle α} {entries : List α} {count : ℕ} {segment : Segment α}

/-- What holds of a handle between two calls. -/
structure Sound (handle : Handle α) : Prop where
  settled : ∀ segment ∈ handle.segments, handle.Settled segment
  clean : handle.dirty = false → ∀ segment ∈ handle.current, segment.file.Durable
  named : handle.fatal = none → ∀ segment ∈ handle.current, segment.index ∈ handle.manifest
  inspected : handle.readOnly = true → ∀ segment ∈ handle.current, handle.Settled segment
  listed : ∀ index ∈ handle.manifest, index ∈ handle.allSegments.map Segment.index

/-- What a call may do to a handle, with the entries it adds. -/
structure Grows (handle next : Handle α) (entries : List α) : Prop where
  sound : next.Sound
  keeps : Keeps handle.written next.written
  named : ∀ index ∈ handle.manifest, index ∈ next.manifest
  contents : next.contents = handle.contents ++ entries

theorem Grows.refl (hsound : handle.Sound) : handle.Grows handle [] where
  sound := hsound
  keeps := Keeps.refl _
  named _ hindex := hindex
  contents := (List.append_nil _).symm

theorem Grows.trans (hfirst : handle.Grows next [])
    (htwo : next.Grows last entries) : handle.Grows last entries where
  sound := htwo.sound
  keeps := hfirst.keeps.trans htwo.keeps
  named index hindex := htwo.named index (hfirst.named index hindex)
  contents := by rw [htwo.contents, hfirst.contents, List.append_nil]

theorem Grows.durableThrough (hgrows : handle.Grows next entries)
    (hfix : handle.DurableThrough count) : next.DurableThrough count := by
  intro position hlt
  obtain ⟨⟨⟨index, entry⟩, residence⟩, hitem, hkept⟩ :=
    Option.any_eq_true _ _ |>.mp (hfix position hlt)
  simp only [decide_eq_true_eq] at hkept
  obtain ⟨rfl, hindex⟩ := hkept
  rw [hgrows.keeps position _ hitem]
  simpa using hgrows.named index hindex

/-- When every segment is settled, so is every entry. -/
theorem AllSettled.durableThrough (hset : handle.AllSettled)
    (hcount : count ≤ handle.contents.length) : handle.DurableThrough count := by
  intro position hlt
  have hbound : position < handle.written.length := by
    rw [contents, List.length_map] at hcount
    exact Nat.lt_of_lt_of_le hlt hcount
  rw [List.getElem?_eq_getElem hbound, Option.any_some]
  obtain ⟨segment, hpart, hitem⟩ := List.mem_flatMap.mp (List.getElem_mem hbound)
  obtain ⟨item, hitem, heq⟩ := List.mem_map.mp hitem
  obtain ⟨hfix, hindex⟩ := hset segment hpart
  change decide (handle.written[position].2 = _ ∧ handle.written[position].1.1 ∈ _) = true
  rw [show handle.written[position] = ((segment.index, item.1), item.2) from heq.symm]
  simp [hfix item hitem, hindex]

theorem Sound.allSettled (hsound : handle.Sound)
    (hnow : ∀ segment ∈ handle.current, handle.Settled segment) : handle.AllSettled := by
  intro segment hpart
  rcases List.mem_append.mp hpart with hseal | hactive
  · exact hsound.settled segment hseal
  · exact hnow segment (Option.mem_toList.mp hactive)

theorem Opened.sound (hopen : handle.Opened) : handle.Sound := by
  obtain ⟨hmanifest, hset⟩ := hopen
  have hnow : ∀ segment ∈ handle.current, handle.Settled segment := fun segment hpart =>
    hset segment (List.mem_append_right _ (Option.mem_toList.mpr hpart))
  exact
    { settled := fun segment hpart => hset segment (List.mem_append_left _ hpart)
      clean := fun _ segment hpart => (hnow segment hpart).1
      named := fun _ segment hpart => (hnow segment hpart).2
      inspected := fun _ => hnow
      listed := fun _ hindex => hmanifest ▸ hindex }

/-- The entries before the active segment, and those in it. -/
theorem written_of_current (hnow : handle.current = some segment) :
    handle.written = handle.segments.flatMap Segment.listing ++ segment.listing := by
  simp [written, allSegments, hnow]

theorem indices_of_current (hnow : handle.current = some segment) :
    handle.allSegments.map Segment.index =
      handle.segments.map Segment.index ++ [segment.index] := by
  simp [allSegments, hnow]

/-- Replacing the file of the active segment by one that keeps what is durable. -/
theorem grows_of_active {active : Segment α} {totalBytes : ℕ} {dirty : Bool}
    (hsound : handle.Sound) (hwrit : handle.readOnly = false)
    (hnow : handle.current = some segment) (hclean : dirty = false → active.file.Durable)
    (hindex : active.index = segment.index) (hkeeps : Keeps segment.file.items active.file.items)
    (hcont : active.file.contents = segment.file.contents ++ entries) :
    handle.Grows { handle with current := some active, totalBytes, dirty } entries where
  sound :=
    { settled := hsound.settled
      clean := by
        rintro hdirty _ ⟨⟩
        exact hclean hdirty
      named := by
        rintro hfatal _ ⟨⟩
        exact hindex ▸ hsound.named hfatal segment hnow
      inspected := fun hpure => by simp [hwrit] at hpure
      listed := by
        rw [indices_of_current rfl, hindex, ← indices_of_current hnow]
        exact hsound.listed }
  keeps := by
    rw [written_of_current hnow, written_of_current rfl]
    apply Keeps.append_left
    rw [Segment.listing, Segment.listing, hindex]
    exact hkeeps.map fun entry => (segment.index, entry)
  named _ hmem := hmem
  contents := by
    have hlisting : ∀ segment : Segment α,
        segment.listing.map (fun item => item.1.2) = segment.file.contents := by
      intro segment
      simp [Segment.listing, CachedFile.contents]
    rw [contents, contents, written_of_current hnow, written_of_current rfl,
      List.map_append, List.map_append, hlisting, hlisting, hcont, List.append_assoc]

/-- One fsync of the active segment. -/
theorem syncCurrent_grows (hsound : handle.Sound) (hwrit : handle.readOnly = false)
    (hint : handle.Intact) (flush : Flush) :
    handle.Grows (handle.syncCurrent flush).1 [] ∧
      ((handle.syncCurrent flush).2 = .ok () →
        ∀ segment ∈ (handle.syncCurrent flush).1.current, segment.file.Durable) := by
  unfold syncCurrent
  split
  next hnone => exact ⟨Grows.refl hsound, by simp [hnone]⟩
  next segment hnow =>
    cases flush with
    | failed lost =>
      refine ⟨grows_of_active hsound hwrit hnow (fun hclean => ?_) rfl
        (segment.file.keeps_failFlush lost) (by simp), nofun⟩
      -- A clean segment has nothing left to drop.
      have hfix := hsound.clean hclean segment hnow
      rw [hfix.failFlush_eq]
      exact hfix
    | complete =>
      have hfix : segment.file.flush.Durable := (hint segment hnow).durable_flush
      exact ⟨grows_of_active hsound hwrit hnow (fun _ => hfix) rfl segment.file.keeps_flush
        (by simp), by rintro _ _ ⟨⟩; exact hfix⟩

theorem syncCurrent_fatal (handle : Handle α) (flush : Flush) :
    (handle.syncCurrent flush).1.fatal = handle.fatal := by
  unfold syncCurrent
  split
  · rfl
  · cases flush <;> rfl

theorem syncCurrent_readOnly (handle : Handle α) (flush : Flush) :
    (handle.syncCurrent flush).1.readOnly = handle.readOnly := by
  unfold syncCurrent
  split
  · rfl
  · cases flush <;> rfl

@[simp] theorem written_activate (index : ℕ) :
    (handle.activate index).written = handle.written := by
  simp [written, activate, allSegments, Segment.listing, CachedFile.empty]

/-- The publication of a manifest over segments that are all settled. -/
theorem publishSegment_grows (hsound : handle.Sound) (hwrit : handle.readOnly = false)
    (hset : handle.AllSettled) (index : ℕ) (publish : Publish) :
    handle.Grows (handle.publishSegment index publish).1 [] := by
  have hclean : ∀ segment ∈ (handle.activate index).current, segment.file.Durable := by
    rintro _ ⟨⟩
    exact CachedFile.durable_empty
  have hkeeps : Keeps handle.written (handle.activate index).written :=
    (written_activate index).symm ▸ Keeps.refl _
  have hcont : (handle.activate index).contents = handle.contents ++ [] := by
    rw [contents, written_activate, List.append_nil, contents]
  have hseal : handle.allSegments ⊆ (handle.activate index).allSegments :=
    List.subset_append_left _ _
  cases publish with
  | unpublished => exact Grows.refl hsound
  | uncertain =>
    exact
      { sound :=
          { settled := hset
            clean := fun _ => hclean
            named := nofun
            inspected := fun hpure =>
              absurd (hwrit.symm.trans hpure) Bool.false_ne_true
            listed := fun index hindex =>
              List.map_subset _ hseal (hsound.listed index hindex) }
        keeps := hkeeps
        named := fun _ hindex => hindex
        contents := hcont }
  | complete =>
    have hnamed : ∀ segment ∈ (handle.activate index).allSegments,
        segment.index ∈ (handle.activate index).allSegments.map Segment.index :=
      fun _ hpart => List.mem_map_of_mem hpart
    exact
      { sound :=
          { settled := fun segment hpart =>
              ⟨(hset segment hpart).1, hnamed segment (hseal hpart)⟩
            clean := fun _ => hclean
            named := fun _ segment hpart =>
              hnamed segment (List.mem_append_right _ (Option.mem_toList.mpr hpart))
            inspected := fun hpure =>
              absurd (hwrit.symm.trans hpure) Bool.false_ne_true
            listed := fun _ hindex => hindex }
        keeps := hkeeps
        named := fun index hindex => List.map_subset _ hseal (hsound.listed index hindex)
        contents := hcont }

theorem createSegment_grows (hsound : handle.Sound) (hwrit : handle.readOnly = false)
    (hfatal : handle.fatal = none) (hint : handle.Intact) (index : ℕ) (creation : Creation) :
    handle.Grows (handle.createSegment index creation).1 [] := by
  have hsync := syncCurrent_grows hsound hwrit hint creation.flush
  have hfatal' := syncCurrent_fatal handle creation.flush
  have hwrit' := syncCurrent_readOnly handle creation.flush
  unfold createSegment
  split
  next next err heq =>
    rw [heq] at hsync
    exact hsync.1
  next next heq =>
    rw [heq] at hsync hfatal' hwrit'
    obtain ⟨hgrows, hfix⟩ := hsync
    split
    · exact hgrows
    · split
      · exact hgrows
      · have hset : next.AllSettled := hgrows.sound.allSettled fun segment hpart =>
          ⟨hfix rfl segment hpart, hgrows.sound.named (hfatal'.trans hfatal) segment hpart⟩
        exact hgrows.trans (publishSegment_grows hgrows.sound (hwrit'.trans hwrit) hset
          index creation.publish)

theorem createSegment_readOnly (handle : Handle α) (index : ℕ) (creation : Creation) :
    (handle.createSegment index creation).1.readOnly = handle.readOnly := by
  have hsync := syncCurrent_readOnly handle creation.flush
  unfold createSegment
  split
  next heq => exact heq ▸ hsync
  next next heq =>
    rw [heq] at hsync
    split
    · exact hsync
    · split
      · exact hsync
      · cases creation.publish <;> exact hsync

/-- The write either adds its entry or poisons the handle. -/
theorem writeEntry_grows (hsound : handle.Sound) (hwrit : handle.readOnly = false)
    (entry : α) (written : Bool) :
    handle.Grows (handle.writeEntry size entry written).1
      (match (handle.writeEntry size entry written).2 with
        | .ok () => [entry]
        | .error _ => []) := by
  unfold writeEntry
  split
  next => exact Grows.refl hsound
  next segment hnow =>
    split
    · exact
        { sound :=
            { settled := hsound.settled
              clean := hsound.clean
              named := nofun
              inspected := hsound.inspected
              listed := hsound.listed }
          keeps := Keeps.refl _
          named := fun _ hindex => hindex
          contents := (List.append_nil _).symm }
    · exact grows_of_active hsound hwrit hnow nofun rfl (segment.file.keeps_write entry) (by simp)

/-- An append adds its entry exactly when it returns without an error. -/
theorem append_grows (hsound : handle.Sound) (entry : α) (writing : Writing)
    (hint : handle.rollsOver (size entry) → handle.Intact) :
    handle.Grows (handle.append size entry writing).1
      (match (handle.append size entry writing).2 with
        | .ok () => [entry]
        | .error _ => []) := by
  unfold append
  split
  · exact Grows.refl hsound
  next hpure =>
    have hwrit : handle.readOnly = false := eq_false_of_ne_true hpure
    split
    next => exact Grows.refl hsound
    next hfatal =>
      split
      · exact Grows.refl hsound
      · split
        next hrolls =>
          have hcreated := createSegment_grows hsound hwrit hfatal (hint hrolls)
            handle.nextIndex writing.creation
          have hwrit' := createSegment_readOnly handle handle.nextIndex writing.creation
          split
          next heq =>
            rw [heq] at hcreated
            exact hcreated
          next next heq =>
            rw [heq] at hcreated hwrit'
            exact hcreated.trans
              (writeEntry_grows hcreated.sound (hwrit'.trans hwrit) entry writing.written)
        · exact writeEntry_grows hsound hwrit entry writing.written

/-- A sync that returns without an error leaves everything settled. -/
theorem sync_grows (hsound : handle.Sound) (hint : handle.Intact) (flush : Flush) :
    handle.Grows (handle.sync flush).1 [] ∧
      ((handle.sync flush).2 = .ok () → (handle.sync flush).1.AllSettled) := by
  unfold sync
  split
  next hpure =>
    exact ⟨Grows.refl hsound, fun _ => hsound.allSettled (hsound.inspected hpure)⟩
  next hpure =>
    have hwrit : handle.readOnly = false := eq_false_of_ne_true hpure
    split
    next => exact ⟨Grows.refl hsound, nofun⟩
    next hfatal =>
      split
      next =>
        obtain ⟨hgrows, hfix⟩ := syncCurrent_grows hsound hwrit hint flush
        have hfatal' := (syncCurrent_fatal handle flush).trans hfatal
        exact ⟨hgrows, fun hok => hgrows.sound.allSettled fun segment hpart =>
          ⟨hfix hok segment hpart, hgrows.sound.named hfatal' segment hpart⟩⟩
      next hdirty =>
        have hclean := hsound.clean (eq_false_of_ne_true hdirty)
        exact ⟨Grows.refl hsound, fun _ => hsound.allSettled fun segment hpart =>
          ⟨hclean segment hpart, hsound.named hfatal segment hpart⟩⟩

end Handle

namespace Journal

variable {journal next : Journal α} {handle : Handle α}

/-- What holds of a log in use between two calls. -/
structure Sound (journal : Journal α) : Prop where
  handle : journal.handle.Sound
  appended : journal.handle.contents = journal.appended
  pending : ∀ batch ∈ journal.pending, ∀ count ∈ batch, count ≤ journal.appended.length
  taken : ∀ batch ∈ journal.taken, ∀ count ∈ batch, count ≤ journal.appended.length
  returned : ∀ count ∈ journal.returned, journal.handle.DurableThrough count

theorem Sound.truthful (hsound : journal.Sound) : journal.Truthful :=
  ⟨hsound.appended, hsound.returned, hsound.handle.settled⟩

theorem sound_opened (hopen : handle.Opened) : (opened handle).Sound where
  handle := hopen.sound
  appended := rfl
  pending := nofun
  taken := nofun
  returned := nofun

section Sound

variable (hsound : journal.Sound)
include hsound

theorem Sound.syncFor (hint : journal.handle.Intact) (flush : Flush) {callers : List ℕ}
    (hcallers : ∀ count ∈ callers, count ≤ journal.appended.length) :
    (journal.syncFor callers flush).Sound := by
  obtain ⟨hgrows, hset⟩ := Handle.sync_grows hsound.handle hint flush
  have hcont : (journal.handle.sync flush).1.contents = journal.appended := by
    rw [hgrows.contents, List.append_nil, hsound.appended]
  have hgave : ∀ count ∈ journal.returned,
      (journal.handle.sync flush).1.DurableThrough count :=
    fun count hcount => hgrows.durableThrough (hsound.returned count hcount)
  unfold Journal.syncFor
  split
  next handle heq =>
    rw [heq] at hgrows hcont hgave hset
    exact
      { handle := hgrows.sound
        appended := hcont
        pending := hsound.pending
        taken := hsound.taken
        returned := by
          intro count hcount
          rcases List.mem_append.mp hcount with hpre | hnew
          · exact hgave count hpre
          · apply (hset rfl).durableThrough
            rw [hcont]
            exact hcallers count hnew }
  next handle err heq =>
    rw [heq] at hgrows hcont hgave
    exact
      { handle := hgrows.sound
        appended := hcont
        pending := hsound.pending
        taken := hsound.taken
        returned := hgave }

/-- Adding entries keeps the calls that wait and those that returned. -/
theorem Sound.append {entries : List α} (hgrows : journal.handle.Grows handle entries) :
    { journal with handle, appended := journal.appended ++ entries }.Sound := by
  have hlen : ∀ count, count ≤ journal.appended.length →
      count ≤ (journal.appended ++ entries).length := by
    intro count hcount
    rw [List.length_append]
    exact Nat.le_add_right_of_le hcount
  exact
    { handle := hgrows.sound
      appended := by rw [hgrows.contents, hsound.appended]
      pending := fun batch hbatch count hcount =>
        hlen count (hsound.pending batch hbatch count hcount)
      taken := fun batch hbatch count hcount => hlen count (hsound.taken batch hbatch count hcount)
      returned := fun count hcount => hgrows.durableThrough (hsound.returned count hcount) }

theorem Sound.join :
    { journal with
      pending := some (journal.pending.getD [] ++ [journal.appended.length]) }.Sound := by
  refine { hsound with pending := ?_ }
  rintro _ ⟨⟩ count hcount
  rcases List.mem_append.mp hcount with hpre | hnew
  · cases hpend : journal.pending with
    | none => simp [hpend] at hpre
    | some batch =>
      rw [hpend] at hpre
      exact hsound.pending batch hpend count hpre
  · exact Nat.le_of_eq (List.mem_singleton.mp hnew)

theorem Sound.step {call : Call α} (hsafe : journal.Safe size call)
    (hstep : journal.step size call = some next) : next.Sound := by
  cases call with
  | append entry writing =>
    have hgrows := Handle.append_grows hsound.handle entry writing hsafe
    simp only [Journal.step] at hstep
    split at hstep
    next handle heq =>
      cases hstep
      rw [heq] at hgrows
      exact hsound.append hgrows
    next handle err heq =>
      cases hstep
      rw [heq] at hgrows
      have hnext := hsound.append hgrows
      rw [List.append_nil] at hnext
      exact hnext
  | sync =>
    cases hstep
    apply hsound.syncFor hsafe
    simp
  | join =>
    cases hstep
    exact hsound.join
  | take =>
    simp only [Journal.step] at hstep
    split at hstep
    next batch hpend htaken =>
      cases hstep
      refine { hsound with pending := nofun, taken := ?_ }
      rintro _ ⟨⟩
      exact hsound.pending batch hpend
    next => exact absurd hstep nofun
  | flush flush =>
    simp only [Journal.step] at hstep
    split at hstep
    next batch htaken =>
      cases hstep
      have hwipe : { journal with taken := none }.Sound := { hsound with taken := nofun }
      exact hwipe.syncFor hsafe flush (hsound.taken batch htaken)
    next => exact absurd hstep nofun

end Sound

/-- As long as the active segment is synced and left only while no failed fsync has
dropped bytes of it, every sync that returns without an error tells the truth. -/
theorem sync_truthful {handle : Handle α} {calls : List (Call α)} (hopened : handle.Opened)
    (hsafe : Guarded (step size) (Safe size) (opened handle) calls)
    (hrun : run size (opened handle) calls = some journal) : journal.Truthful := by
  have hsound := hsafe.invariant (fun hsound hguard hstep => Sound.step hsound hguard hstep) hrun
    (sound_opened hopened)
  exact hsound.truthful

/-- An fsync that fails and loses nothing, and the retry, shared by two callers. -/
def retriedSync : List (Call ℕ) :=
  [.append 5 ⟨⟨.complete, true, true, .complete⟩, true⟩, .sync (.failed []), .join,
    .append 6 ⟨⟨.complete, true, true, .complete⟩, true⟩, .join, .take, .flush .complete]

theorem sync_truthful_retriedSync :
    ∃ journal, run (fun _ => 10) (opened (Handle.created 15 0)) retriedSync = some journal ∧
      journal.returned = [1, 2] ∧ journal.Truthful := by
  obtain ⟨journal, hrun, hreturned⟩ : ∃ journal, run (fun _ => 10)
      (opened (Handle.created 15 0)) retriedSync = some journal ∧ journal.returned = [1, 2] := by
    decide +kernel
  exact ⟨journal, hrun, hreturned, sync_truthful (by decide) (by decide +kernel) hrun⟩

/-- The fsync of the first sync fails and drops the entry; the second sync finds the
segment still marked dirty, and its fsync has nothing left to write. -/
def repeatedSync : List (Call ℕ) :=
  [.append 5 ⟨⟨.complete, true, true, .complete⟩, true⟩, .sync (.failed [0]), .sync .complete]

theorem sync_untruthful :
    ∃ journal, run (fun _ => 10) (opened (Handle.created 15 0)) repeatedSync = some journal ∧
      1 ∈ journal.returned ∧ journal.appended = [5] ∧ ¬ journal.handle.DurableThrough 1 := by
  decide +kernel

end Journal

end Rhiza.QLog
