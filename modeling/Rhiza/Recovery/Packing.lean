import Rhiza.Foundations.GreedyPacking
import Rhiza.Recovery.ExtentCodec

/-! # Compaction of the archive

The decisions of a chain of extents are packed again into as few extents as the limits allow. The
loop keeps the closed extents, the open one, and two accumulators: the size of the open extent's
decisions and the running prefix hash. It carries out a greedy packing, so it may be cut after any
extent and resumed from what it returned.
-/

namespace Rhiza.Recovery

open Foundations

def zeroDigest : Digest := .copy []

/-- The zero value of the type. -/
def Extent.zero : Extent := ⟨0, 0, 0, zeroDigest, zeroDigest, zeroDigest, 0, []⟩

def extentEncodedSize (decisionsBytes decisions : ℕ) : Checked ℕ := do
  require (0 < decisions ∧ decisions ≤ maxExtentItems) "invalid archive extent item count"
  .ok (extentHeaderSize + decisionsBytes + archiveCRCSize)

structure PackState where
  result : List Extent
  current : Extent
  encodedDecisions : ℕ
  digest : Digest

def PackState.flush (state : PackState) : PackState where
  result := if state.current.decisions ≠ [] then state.result ++ [state.current] else state.result
  current := .zero
  encodedDecisions := 0
  digest := state.digest

section Code

-- `extentForRef` reads the extent of a reference from the cache or the bucket.
variable (hashing : Hashing) (configID : UInt64) (extentForRef : Extent → Checked Extent)

/-- Adds the decision to the open extent, or opens one with it. -/
def PackState.append (state : PackState) (decision : DecidedValue) : PackState :=
  let current := if state.current.decisions = [] then
    { Extent.zero with configID, start := decision.slot, startPrefix := state.digest }
    else state.current
  let digest := advancePrefixHash hashing state.digest decision.slot decision.hash
  { result := state.result
    current := { current with
      decisions := current.decisions ++ [decision], stop := decision.slot, endPrefix := digest }
    encodedDecisions := state.encodedDecisions + archiveDecisionSize decision
    digest }

/-- The body of the inner loop. -/
def packDecision (state : PackState) (decision : DecidedValue) : Checked PackState := do
  let encodedSize := archiveDecisionSize decision
  let state := if state.current.decisions.length = maxExtentItems then state.flush else state
  let nextSize ← extentEncodedSize (state.encodedDecisions + encodedSize)
    (state.current.decisions.length + 1)
  let state :=
    if state.current.decisions ≠ [] ∧ maxExtentSize < nextSize then state.flush else state
  .ok (state.append hashing configID decision)

def packRef (state : PackState) (ref : Extent) : Checked PackState := do
  let extent ← extentForRef ref
  extent.decisions.foldlM (packDecision hashing configID) state

/-- The loop starts from the last packed extent, which it opens again. -/
def resumed (digest : Digest) (packed : List Extent) : PackState :=
  packed.getLast?.elim ⟨[], .zero, 0, digest⟩ fun current =>
    ⟨packed.dropLast, current, decisionsSize current.decisions, current.endPrefix⟩

def compactExtentsFrom (refs : List Extent) (digest : Digest) (packed : List Extent) :
    Checked (List Extent) := do
  let state ← refs.foldlM (packRef hashing configID extentForRef) (resumed digest packed)
  .ok state.flush.result

def compactExtents (refs : List Extent) (digest : Digest) : Checked (List Extent) :=
  if refs.length < 2 then .ok refs
  else compactExtentsFrom hashing configID extentForRef refs digest []

end Code

/-! ## Groups of decisions as extents -/

/-- The limits of one extent. -/
def Fits (group : List DecidedValue) : Prop :=
  group.length ≤ maxExtentItems ∧
    extentHeaderSize + archiveCRCSize + decisionsSize group ≤ maxExtentSize

instance : DecidablePred Fits := fun _ => inferInstanceAs (Decidable (_ ∧ _))

@[simp] theorem decisionsSize_append (front back : List DecidedValue) :
    decisionsSize (front ++ back) = decisionsSize front + decisionsSize back := by
  simp [decisionsSize]

theorem Fits.front {front back : List DecidedValue} (h : Fits (front ++ back)) : Fits front := by
  unfold Fits at *
  rw [List.length_append, decisionsSize_append] at h
  omega

theorem Fits.back {front back : List DecidedValue} (h : Fits (front ++ back)) : Fits back := by
  unfold Fits at *
  rw [List.length_append, decisionsSize_append] at h
  omega

theorem Fits.singleton {group : List DecidedValue} (h : Fits group) {decision : DecidedValue}
    (hmem : decision ∈ group) : Fits [decision] := by
  obtain ⟨front, back, rfl⟩ := List.append_of_mem hmem
  exact (h.back : Fits ([decision] ++ back)).front

/-- The decisions are those of the slots from this one on; a slot is a machine word. -/
def Numbered : ℕ → List DecidedValue → Prop
  | _, [] => True
  | slot, decision :: rest => decision.slot.toNat = slot ∧ Numbered (slot + 1) rest

theorem numbered_append {slot : ℕ} {front back : List DecidedValue} :
    Numbered slot (front ++ back) ↔
      Numbered slot front ∧ Numbered (slot + front.length) back := by
  induction front generalizing slot with
  | nil => simp [Numbered]
  | cons decision front ih =>
    rw [List.cons_append, Numbered, Numbered, ih, and_assoc, List.length_cons, Nat.add_right_comm,
      Nat.add_assoc]

theorem Numbered.contiguous {start : UInt64} {decisions : List DecidedValue}
    (h : Numbered start.toNat decisions) : Contiguous start decisions := by
  induction decisions generalizing start with
  | nil => trivial
  | cons decision rest ih =>
    refine ⟨UInt64.toNat_inj.mp h.1, ?_⟩
    cases rest with
    | nil => trivial
    | cons next rest =>
      apply ih
      have hnext : next.slot.toNat = start.toNat + 1 := h.2.1
      have hbound := next.slot.toNat_lt
      rw [UInt64.toNat_add, Nat.mod_eq_of_lt (by rw [UInt64.toNat_one]; omega)]
      exact h.2

section Chains

variable (hashing : Hashing) (configID : UInt64)

/-- The extent is one of a chain: it goes on at the slot and at the prefix hash. -/
structure Extent.Linked (slot : ℕ) (digest : Digest) (extent : Extent) : Prop where
  nonempty : extent.decisions ≠ []
  start_eq : extent.start.toNat = slot
  stop_eq : extent.stop.toNat + 1 = slot + extent.decisions.length
  numbered : Numbered slot extent.decisions
  startPrefix_eq : extent.startPrefix = digest
  endPrefix_eq : extent.endPrefix = prefixAfter hashing digest extent.decisions
  fits : Fits extent.decisions

/-- Extents of contiguous decisions, with their prefix hashes, within the limits. -/
def Chain : ℕ → Digest → List Extent → Prop
  | _, _, [] => True
  | slot, digest, extent :: rest => extent.Linked hashing slot digest ∧
    Chain (slot + extent.decisions.length) extent.endPrefix rest

/-- The extent of a group after the prefix hash. -/
def extentOf (digest : Digest) (group : List DecidedValue) : Extent :=
  { Extent.zero with
    configID
    start := (group.head?.map (·.slot)).getD 0
    stop := (group.getLast?.map (·.slot)).getD 0
    startPrefix := digest
    endPrefix := prefixAfter hashing digest group
    decisions := group }

def extentsFrom : Digest → List (List DecidedValue) → List Extent
  | _, [] => []
  | digest, group :: rest =>
    extentOf hashing configID digest group :: extentsFrom (prefixAfter hashing digest group) rest

variable {hashing configID} {slot : ℕ} {digest : Digest} {group : List DecidedValue}
  {groups : List (List DecidedValue)} {extents : List Extent} {extent : Extent}

theorem prefixAfter_append (digest : Digest) (front back : List DecidedValue) :
    prefixAfter hashing digest (front ++ back) =
      prefixAfter hashing (prefixAfter hashing digest front) back := List.foldl_append

theorem extentsFrom_append (digest : Digest) (front back : List (List DecidedValue)) :
    extentsFrom hashing configID digest (front ++ back) =
      extentsFrom hashing configID digest front ++
        extentsFrom hashing configID (prefixAfter hashing digest front.flatten) back := by
  induction front generalizing digest with
  | nil => rfl
  | cons group front ih =>
    rw [List.cons_append, extentsFrom, ih, extentsFrom, List.flatten_cons, prefixAfter_append,
      List.cons_append]

theorem flatMap_extentsFrom :
    (extentsFrom hashing configID digest groups).flatMap (·.decisions) = groups.flatten := by
  induction groups generalizing digest with
  | nil => rfl
  | cons group groups ih => rw [extentsFrom, List.flatMap_cons, ih, List.flatten_cons]; rfl

theorem length_extentsFrom :
    (extentsFrom hashing configID digest groups).length = groups.length := by
  induction groups generalizing digest with
  | nil => rfl
  | cons group groups ih => rw [extentsFrom, List.length_cons, ih, List.length_cons]

theorem linked_extentOf (hne : group ≠ []) (hnum : Numbered slot group) (hfits : Fits group) :
    (extentOf hashing configID digest group).Linked hashing slot digest := by
  refine ⟨hne, ?_, ?_, hnum, rfl, rfl, hfits⟩
  · cases group with
    | nil => exact absurd rfl hne
    | cons => exact hnum.1
  · obtain ⟨front, last, rfl⟩ := (List.eq_nil_or_concat group).resolve_left hne
    rw [List.concat_eq_append] at *
    rw [numbered_append] at hnum
    have hlast : last.slot.toNat = slot + front.length := hnum.2.1
    simp [extentOf, hlast, Nat.add_assoc]

theorem chain_extentsFrom (hgroups : ∀ group ∈ groups, group ≠ [] ∧ Fits group)
    (hnum : Numbered slot groups.flatten) :
    Chain hashing slot digest (extentsFrom hashing configID digest groups) := by
  induction groups generalizing slot digest with
  | nil => trivial
  | cons group groups ih =>
    rw [List.forall_mem_cons] at hgroups
    rw [List.flatten_cons, numbered_append] at hnum
    exact ⟨linked_extentOf hgroups.1.1 hnum.1 hgroups.1.2, ih hgroups.2 hnum.2⟩

theorem Chain.numbered (h : Chain hashing slot digest extents) :
    Numbered slot (extents.flatMap (·.decisions)) := by
  induction extents generalizing slot digest with
  | nil => trivial
  | cons extent extents ih =>
    rw [List.flatMap_cons, numbered_append]
    exact ⟨h.1.numbered, ih h.2⟩

theorem Chain.linked (h : Chain hashing slot digest extents) (hmem : extent ∈ extents) :
    ∃ slot' digest', slot ≤ slot' ∧ extent.Linked hashing slot' digest' := by
  induction extents generalizing slot digest with
  | nil => cases hmem
  | cons head extents ih =>
    rcases List.mem_cons.mp hmem with rfl | hmem
    · exact ⟨slot, digest, le_rfl, h.1⟩
    · obtain ⟨slot', digest', hle, hlinked⟩ := ih h.2 hmem
      exact ⟨slot', digest', (Nat.le_add_right _ _).trans hle, hlinked⟩

/-- The writer accepts an extent of a chain if it accepts its payloads. -/
theorem Extent.Linked.encodes {validateValue : Option (ByteString → Checked Unit)}
    (h : extent.Linked hashing slot digest) (hslot : 0 < slot)
    (harch : ∀ decision ∈ extent.decisions, decision.Archivable hashing validateValue) :
    encodeExtentWithValueValidator hashing validateValue extent = .ok (extent.bytes hashing) := by
  have hpos : 0 < extent.decisions.length := List.length_pos_of_ne_nil h.nonempty
  have hstart := h.start_eq
  have hstop := h.stop_eq
  have hbound := extent.stop.toNat_lt
  refine encodeExtent_eq_ok.mpr ⟨⟨?_, h.nonempty, by omega, ?_, ?_, harch, h.fits.2,
    h.fits.1⟩, by rw [h.startPrefix_eq, h.endPrefix_eq], rfl⟩
  · intro hzero
    rw [hzero] at hstart
    exact hslot.ne hstart
  · apply UInt64.toNat_inj.mp
    have hcount : extent.decisions.length ≤ 1024 := h.fits.1
    rw [UInt64.toNat_sub, UInt64.toNat_add, UInt64.toNat_ofNat_of_lt' (by rw [UInt64.size]; omega),
      UInt64.toNat_one]
    omega
  · apply Numbered.contiguous
    rw [hstart]
    exact h.numbered

end Chains

/-! ## The loop is a greedy packing -/

/-- The state of the loop that has packed these groups, from the prefix hash on. -/
structure Carries (hashing : Hashing) (configID : UInt64) (origin : Digest) (state : PackState)
    (packing : Packing DecidedValue) : Prop where
  result : state.result = extentsFrom hashing configID origin packing.closed
  decisions : state.current.decisions = packing.current
  current : packing.current ≠ [] → state.current =
    extentOf hashing configID (prefixAfter hashing origin packing.closed.flatten) packing.current
  encodedDecisions : state.encodedDecisions = decisionsSize packing.current
  digest : state.digest = prefixAfter hashing origin packing.contents

section Loop

variable {hashing : Hashing} {configID : UInt64} {extentForRef : Extent → Checked Extent}
  {origin : Digest} {state : PackState} {packing : Packing DecidedValue} {decision : DecidedValue}

section Carries

variable (h : Carries hashing configID origin state packing)
include h

theorem Carries.flush :
    state.flush.result = extentsFrom hashing configID origin packing.groups := by
  unfold PackState.flush Packing.groups
  simp only [h.decisions, h.result, extentsFrom_append, ite_not]
  split
  case isTrue => simp [extentsFrom]
  case isFalse hne => rw [h.current hne, extentsFrom, extentsFrom]

/-- Closing the open group. -/
theorem Carries.close (hne : packing.current ≠ []) :
    Carries hashing configID origin state.flush ⟨packing.closed ++ [packing.current], []⟩ where
  result := by
    rw [h.flush, Packing.groups, if_neg hne]
  decisions := rfl
  current hnil := absurd rfl hnil
  encodedDecisions := rfl
  digest := by
    rw [PackState.flush, h.digest]
    simp [Packing.contents]

theorem Carries.append (decision : DecidedValue) :
    Carries hashing configID origin (state.append hashing configID decision)
      ⟨packing.closed, packing.current ++ [decision]⟩ := by
  have hcont : packing.contents = packing.closed.flatten ++ packing.current := rfl
  have hdigest : advancePrefixHash hashing state.digest decision.slot decision.hash =
      prefixAfter hashing origin (packing.closed.flatten ++ (packing.current ++ [decision])) := by
    rw [← List.append_assoc, ← hcont, prefixAfter_append, ← h.digest]
    rfl
  refine ⟨h.result, ?_, fun _ => ?_, ?_, hdigest⟩
  · unfold PackState.append
    split
    case isTrue hnil => rw [← h.decisions, hnil]; rfl
    case isFalse => simp [h.decisions]
  · unfold PackState.append
    rw [hdigest, prefixAfter_append]
    by_cases hnil : packing.current = []
    · rw [if_pos (h.decisions.trans hnil), h.digest, hcont, hnil, List.append_nil]
      rfl
    · rw [if_neg (by rwa [h.decisions]), h.current hnil]
      cases hgroup : packing.current with
      | nil => exact absurd hgroup hnil
      | cons =>
        simp [extentOf, List.getLast?_cons]
  · simp [PackState.append, h.encodedDecisions, decisionsSize]

end Carries

theorem extentEncodedSize_of_le {size count : ℕ} (h : count + 1 ≤ maxExtentItems) :
    extentEncodedSize size (count + 1) = .ok (extentHeaderSize + size + archiveCRCSize) := by
  unfold extentEncodedSize require
  rw [if_pos ⟨Nat.succ_pos count, h⟩, ok_bind]

theorem packDecision_of_lt (hitems : state.current.decisions.length + 1 ≤ maxExtentItems)
    (decision : DecidedValue) :
    packDecision hashing configID state decision =
      .ok ((if state.current.decisions ≠ [] ∧ maxExtentSize < extentHeaderSize +
        (state.encodedDecisions + archiveDecisionSize decision) + archiveCRCSize
        then state.flush else state).append hashing configID decision) := by
  have hcount : state.current.decisions.length ≠ maxExtentItems := by omega
  simp only [packDecision, if_neg hcount, extentEncodedSize_of_le hitems, ok_bind]

theorem fits_append_iff {group : List DecidedValue} :
    Fits (group ++ [decision]) ↔ group.length + 1 ≤ maxExtentItems ∧
      ¬ maxExtentSize < extentHeaderSize + (decisionsSize group + archiveDecisionSize decision) +
        archiveCRCSize := by
  have hone : decisionsSize [decision] = archiveDecisionSize decision := by simp [decisionsSize]
  rw [Fits, List.length_append, List.length_singleton, decisionsSize_append, hone]
  omega

theorem packDecision_of_full (hitems : state.current.decisions.length ≤ maxExtentItems)
    (hne : state.current.decisions ≠ [])
    (hsize : state.encodedDecisions = decisionsSize state.current.decisions)
    (hfull : ¬ Fits (state.current.decisions ++ [decision])) :
    packDecision hashing configID state decision =
      .ok (state.flush.append hashing configID decision) := by
  by_cases hcount : state.current.decisions.length = maxExtentItems
  · have hempty : state.flush.current.decisions.length = 0 := rfl
    have hflush : packDecision hashing configID state decision =
        packDecision hashing configID state.flush decision := by
      unfold packDecision
      rw [if_pos hcount, hempty, if_neg (by decide)]
    rw [hflush, packDecision_of_lt (by rw [hempty]; decide), if_neg fun h => h.1 rfl]
  · rw [fits_append_iff, ← hsize] at hfull
    rw [packDecision_of_lt (by omega), if_pos ⟨hne, by omega⟩]

theorem packDecision_of_fits
    (hsize : state.encodedDecisions = decisionsSize state.current.decisions)
    (hroom : state.current.decisions ≠ [] → Fits (state.current.decisions ++ [decision])) :
    packDecision hashing configID state decision =
      .ok (state.append hashing configID decision) := by
  by_cases hnil : state.current.decisions = []
  · have hitems : state.current.decisions.length + 1 ≤ maxExtentItems := by
      rw [hnil]
      decide
    rw [packDecision_of_lt hitems, if_neg fun h => h.1 hnil]
  · obtain ⟨hitems, hbytes⟩ := fits_append_iff.mp (hroom hnil)
    rw [packDecision_of_lt hitems, hsize, if_neg fun h => hbytes h.2]

theorem Carries.packDecision (h : Carries hashing configID origin state packing)
    (hfits : packing.current ≠ [] → Fits packing.current) (decision : DecidedValue) :
    ∃ state', Recovery.packDecision hashing configID state decision = .ok state' ∧
      Carries hashing configID origin state' (Packing.push Fits packing decision) := by
  have hsize : state.encodedDecisions = decisionsSize state.current.decisions := by
    rw [h.encodedDecisions, h.decisions]
  unfold Packing.push
  split
  case isTrue hfull =>
    rw [← h.decisions] at hfull hfits
    exact ⟨_, packDecision_of_full (hfits hfull.1).1 hfull.1 hsize hfull.2,
      (h.close (by rw [← h.decisions]; exact hfull.1)).append decision⟩
  case isFalse hroom =>
    rw [← h.decisions] at hroom
    exact ⟨_, packDecision_of_fits hsize fun hne => not_not.mp fun hno => hroom ⟨hne, hno⟩,
      h.append decision⟩

theorem Carries.packDecisions (h : Carries hashing configID origin state packing)
    (hsound : packing.Sound Fits) {decisions : List DecidedValue}
    (hfits : ∀ decision ∈ decisions, Fits [decision]) :
    ∃ state', decisions.foldlM (Recovery.packDecision hashing configID) state = .ok state' ∧
      Carries hashing configID origin state' (decisions.foldl (Packing.push Fits) packing) := by
  induction decisions generalizing state packing with
  | nil => exact ⟨state, rfl, h⟩
  | cons decision decisions ih =>
    rw [List.forall_mem_cons] at hfits
    obtain ⟨next, hstep, hnext⟩ := h.packDecision hsound.current decision
    obtain ⟨state', hrest, hstate⟩ := ih hnext (hsound.push hfits.1) hfits.2
    exact ⟨state', by rw [List.foldlM_cons, hstep, ok_bind, hrest], hstate⟩

variable {refs extents : List Extent} {digest : Digest}

theorem Carries.packRefs (h : Carries hashing configID origin state packing)
    (hsound : packing.Sound Fits)
    (hload : List.Forall₂ (fun ref extent => extentForRef ref = .ok extent) refs extents)
    (hfits : ∀ extent ∈ extents, Fits extent.decisions) :
    ∃ state', refs.foldlM (packRef hashing configID extentForRef) state = .ok state' ∧
      Carries hashing configID origin state'
        ((extents.flatMap (·.decisions)).foldl (Packing.push Fits) packing) := by
  induction hload generalizing state packing with
  | nil => exact ⟨state, rfl, h⟩
  | @cons ref extent refs extents href _ ih =>
    rw [List.forall_mem_cons] at hfits
    have hsingle : ∀ decision ∈ extent.decisions, Fits [decision] := fun _ => hfits.1.singleton
    obtain ⟨next, hstep, hnext⟩ := h.packDecisions hsound hsingle
    obtain ⟨state', hrest, hstate⟩ := ih hnext (hsound.foldl hsingle) hfits.2
    refine ⟨state', ?_, by rwa [List.flatMap_cons, List.foldl_append]⟩
    rw [List.foldlM_cons, packRef, href, ok_bind, hstep, ok_bind, hrest]

theorem carries_start (digest : Digest) :
    Carries hashing configID digest (resumed digest []) .empty :=
  ⟨rfl, rfl, fun hne => absurd rfl hne, rfl, rfl⟩

theorem carries_resumed (digest : Digest) (hsound : packing.Sound Fits) :
    Carries hashing configID digest
      (resumed digest (extentsFrom hashing configID digest packing.groups)) packing := by
  by_cases hnil : packing.current = []
  · obtain ⟨closed, current⟩ := packing
    obtain rfl : current = [] := hnil
    obtain rfl : closed = [] := hsound.started rfl
    exact carries_start digest
  · rw [Packing.groups, if_neg hnil, extentsFrom_append, extentsFrom, extentsFrom]
    refine ⟨?_, ?_, fun _ => ?_, ?_, ?_⟩
    · simp [resumed]
    · simp [resumed, extentOf]
    · simp [resumed]
    · simp [resumed, extentOf]
    · simp [resumed, extentOf, Packing.contents, prefixAfter_append]

/-- The groups that the decisions of the extents are packed into. -/
def packed (extents : List Extent) : Packing DecidedValue :=
  (extents.flatMap (·.decisions)).foldl (Packing.push Fits) .empty

theorem sound_packed (hfits : ∀ extent ∈ extents, Fits extent.decisions) :
    (packed extents).Sound Fits := by
  apply Packing.sound_empty.foldl
  intro decision hmem
  obtain ⟨extent, hextent, hpick⟩ := List.mem_flatMap.mp hmem
  exact (hfits extent hextent).singleton hpick

theorem compactExtents_eq (htwo : 2 ≤ refs.length)
    (hload : List.Forall₂ (fun ref extent => extentForRef ref = .ok extent) refs extents)
    (hfits : ∀ extent ∈ extents, Fits extent.decisions) :
    compactExtents hashing configID extentForRef refs digest =
      .ok (extentsFrom hashing configID digest (packed extents).groups) := by
  have hstart : Carries hashing configID digest (resumed digest []) .empty := carries_start digest
  obtain ⟨state, hrun, hstate⟩ := hstart.packRefs Packing.sound_empty hload hfits
  rw [compactExtents, if_neg (by omega), compactExtentsFrom, hrun, ok_bind, hstate.flush, packed]

/-- Packing on from where an earlier packing ended. -/
theorem compactExtentsFrom_packed {front rest : List Extent}
    (hload : List.Forall₂ (fun ref extent => extentForRef ref = .ok extent) refs rest)
    (hfront : ∀ extent ∈ front, Fits extent.decisions)
    (hfits : ∀ extent ∈ rest, Fits extent.decisions) :
    compactExtentsFrom hashing configID extentForRef refs digest
        (extentsFrom hashing configID digest (packed front).groups) =
      .ok (extentsFrom hashing configID digest (packed (front ++ rest)).groups) := by
  have hsound := sound_packed hfront
  obtain ⟨state, hrun, hstate⟩ := (carries_resumed digest hsound).packRefs hsound hload hfits
  rw [compactExtentsFrom, hrun, ok_bind, hstate.flush, packed, packed, List.flatMap_append,
    List.foldl_append]

/-- Repacking keeps the decisions and their chain, writes extents that can be encoded and no more
of them than it read, and goes on after a part of the references as if it had read them all. -/
theorem compactExtents_repacks (hashing : Hashing) (configID : UInt64)
    (extentForRef : Extent → Checked Extent)
    (validateValue : Option (ByteString → Checked Unit)) {slot : ℕ} {digest : Digest}
    (hslot : 0 < slot) (htwo : 2 ≤ refs.length)
    (hload : List.Forall₂ (fun ref extent => extentForRef ref = .ok extent) refs extents)
    (hchain : Chain hashing slot digest extents) :
    ∃ result, compactExtents hashing configID extentForRef refs digest = .ok result ∧
      result.flatMap (·.decisions) = extents.flatMap (·.decisions) ∧
      Chain hashing slot digest result ∧
      (∀ extent ∈ result,
        (∀ decision ∈ extent.decisions, decision.Archivable hashing validateValue) →
          encodeExtentWithValueValidator hashing validateValue extent =
            .ok (extent.bytes hashing)) ∧
      result.length ≤ refs.length ∧
      ∀ front rest, refs = front ++ rest → 2 ≤ front.length →
        ∃ first, compactExtents hashing configID extentForRef front digest = .ok first ∧
          compactExtentsFrom hashing configID extentForRef rest digest first = .ok result := by
  have hfits : ∀ extent ∈ extents, Fits extent.decisions := by
    intro extent hmem
    obtain ⟨_, _, -, hlinked⟩ := hchain.linked hmem
    exact hlinked.fits
  have hsound := sound_packed hfits
  have hflatten : (packed extents).groups.flatten = extents.flatMap (·.decisions) := by
    rw [Packing.flatten_groups, packed, Packing.contents_foldl]
    rfl
  have hresult : Chain hashing slot digest
      (extentsFrom hashing configID digest (packed extents).groups) := by
    apply chain_extentsFrom hsound.groups
    rw [hflatten]
    exact hchain.numbered
  refine ⟨_, compactExtents_eq htwo hload hfits, ?_, hresult, ?_, ?_, ?_⟩
  · rw [flatMap_extentsFrom, hflatten]
  · intro extent hmem harchivable
    obtain ⟨_, _, hle, hlinked⟩ := hresult.linked hmem
    exact hlinked.encodes (by omega) harchivable
  · have hle : (packed extents).groups.length ≤ 0 + (extents.map (·.decisions)).length := by
      rw [packed, List.flatMap_def]
      exact Packing.length_groups_le Fits.front Fits.back (by simpa using hfits)
    rw [length_extentsFrom, hload.length_eq]
    simpa using hle
  · rintro front rest rfl hfront
    have hfrontLoad := List.forall₂_take front.length hload
    have hrestLoad := List.forall₂_drop front.length hload
    rw [List.take_left] at hfrontLoad
    rw [List.drop_left] at hrestLoad
    have hfrontFits : ∀ extent ∈ extents.take front.length, Fits extent.decisions :=
      fun extent hmem => hfits extent (List.mem_of_mem_take hmem)
    refine ⟨_, compactExtents_eq hfront hfrontLoad hfrontFits, ?_⟩
    rw [compactExtentsFrom_packed hrestLoad hfrontFits
      fun extent hmem => hfits extent (List.mem_of_mem_drop hmem), List.take_append_drop]

/-- A hash function that is constant, for examples. -/
def constantHashing : Hashing := ⟨fun _ => zeroDigest, fun _ => 0⟩

def oneDecision (slot : UInt64) : Extent :=
  { Extent.zero with start := slot, stop := slot, decisions := [⟨slot, zeroDigest, [1], [1]⟩] }

theorem compactExtents_repacks_two :
    Chain constantHashing 1 zeroDigest [oneDecision 1, oneDecision 2] ∧
      ∃ result, compactExtents constantHashing 0 .ok [oneDecision 1, oneDecision 2] zeroDigest =
          .ok result ∧ result.length ≤ 2 := by
  have hchain : Chain constantHashing 1 zeroDigest [oneDecision 1, oneDecision 2] :=
    ⟨⟨by simp [oneDecision], rfl, rfl, ⟨rfl, trivial⟩, rfl, rfl, by decide⟩,
      ⟨by simp [oneDecision], rfl, rfl, ⟨rfl, trivial⟩, rfl, rfl, by decide⟩, trivial⟩
  obtain ⟨result, hresult, -, -, -, hlength, -⟩ := compactExtents_repacks
    constantHashing 0 .ok none Nat.one_pos (by decide) (.cons rfl (.cons rfl .nil)) hchain
  exact ⟨hchain, result, hresult, hlength⟩

end Loop

end Rhiza.Recovery
