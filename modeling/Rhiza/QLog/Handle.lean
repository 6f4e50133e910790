import Rhiza.Foundations.PageCache
import Rhiza.Foundations.System

/-! # The write path of the log

An open write-ahead log and the calls that append to it and sync it, with every
outcome that a call of the file system can have. A segment is a file behind the page
cache; rolling over syncs the old segment, creates the next one and publishes a
manifest that names it. The group commit in front of the log shares one sync between
the callers that wait for it.
-/

namespace Rhiza.QLog

open Foundations

universe u

/-- A segment file, with the bytes written to it so far. -/
structure Segment (α : Type u) where
  index : ℕ
  file : CachedFile α
  offset : ℕ
deriving DecidableEq

/-- The writes to the segment, with its index. -/
def Segment.listing {α : Type u} (segment : Segment α) : List ((ℕ × α) × Residence) :=
  segment.file.items.map fun item => ((segment.index, item.1), item.2)

/-- The outcome of an fsync: complete, or failed with the writes it dropped. -/
inductive Flush where
  | complete
  | failed (lost : List ℕ)
deriving DecidableEq, Repr

/-- The outcome of an atomic file write: complete, failed before the rename, or
renamed while the sync of the directory failed. -/
inductive Publish where
  | complete
  | unpublished
  | uncertain
deriving DecidableEq, Repr

/-- The outcomes of the file system calls of `createSegment`. -/
structure Creation where
  flush : Flush
  created : Bool
  directorySynced : Bool
  publish : Publish
deriving DecidableEq, Repr

/-- The outcomes of the file system calls of `Append`. -/
structure Writing where
  creation : Creation
  written : Bool
deriving DecidableEq, Repr

/-- An open log. `segments` are the sealed ones; `manifest` lists the segments that
the manifest on disk is known to name. -/
structure Handle (α : Type u) where
  segments : List (Segment α)
  current : Option (Segment α)
  generation : ℕ
  maxSize : ℕ
  /-- Zero means that no limit is configured. -/
  maxBytes : ℕ
  totalBytes : ℕ
  dirty : Bool
  fatal : Option String
  readOnly : Bool
  manifest : List ℕ
deriving DecidableEq

namespace Handle

variable {α : Type u} (size : α → ℕ) (handle : Handle α)

/-- The fsync of the active segment. Only a completed one clears the dirty flag. -/
def syncCurrent (flush : Flush) : Handle α × Except String Unit :=
  match handle.current with
  | none => (handle, .ok ())
  | some segment =>
    match flush with
    | .failed lost =>
      ({ handle with current := some { segment with file := segment.file.failFlush lost } },
        .error "sync failed")
    | .complete =>
      ({ handle with
          current := some { segment with file := segment.file.flush }
          dirty := false }, .ok ())

def allSegments : List (Segment α) := handle.segments ++ handle.current.toList

/-- The handle after a new, empty segment became the active one. -/
def activate (index : ℕ) : Handle α :=
  { handle with
    segments := handle.allSegments
    current := some ⟨index, .empty, 0⟩
    generation := handle.generation + 1 }

/-- The publication of the manifest that names a new segment. An uncertain one leaves
the new segment in place and poisons the handle; before the rename the old state
comes back. -/
def publishSegment (index : ℕ) : Publish → Handle α × Except String Unit
  | .unpublished => (handle, .error "publish WAL manifest")
  | .uncertain =>
    ({ handle.activate index with fatal := some "WAL manifest durability is uncertain" },
      .error "publish WAL manifest")
  | .complete =>
    ({ handle.activate index with
        manifest := (handle.activate index).allSegments.map Segment.index }, .ok ())

def createSegment (index : ℕ) (creation : Creation) : Handle α × Except String Unit :=
  match handle.syncCurrent creation.flush with
  | (next, .error err) => (next, .error err)
  | (next, .ok ()) =>
    if creation.created = false then (next, .error "create WAL segment")
    else if creation.directorySynced = false then
      (next, .error "sync WAL directory after creating segment")
    else next.publishSegment index creation.publish

/-- Whether an entry of this size needs a new segment. -/
def rollsOver (bytes : ℕ) : Bool :=
  match handle.current with
  | none => true
  | some segment => handle.maxSize < segment.offset + bytes

/-- The index of the next segment. -/
def nextIndex : ℕ := (handle.current.map Segment.index).getD 0 + 1

/-- The write at the end of the active segment. An error or a short write leaves the
tail uncertain, so it poisons the handle. -/
def writeEntry (entry : α) (written : Bool) : Handle α × Except String Unit :=
  match handle.current with
  | none => (handle, .error "WAL has no active segment")
  | some segment =>
    if written = false then
      ({ handle with fatal := some "WAL append is uncertain" }, .error "WAL append is uncertain")
    else
      ({ handle with
          current := some ⟨segment.index, segment.file.write entry, segment.offset + size entry⟩
          totalBytes := handle.totalBytes + size entry
          dirty := true }, .ok ())

/-- `Append`. -/
def append (entry : α) (writing : Writing) : Handle α × Except String Unit :=
  if handle.readOnly then (handle, .error "WAL inspection is read-only")
  else
    match handle.fatal with
    | some err => (handle, .error err)
    | none =>
      if 0 < handle.maxBytes ∧ handle.maxBytes < handle.totalBytes + size entry then
        (handle, .error "WAL capacity reached")
      else if handle.rollsOver (size entry) then
        match handle.createSegment handle.nextIndex writing.creation with
        | (next, .error err) => (next, .error err)
        | (next, .ok ()) => next.writeEntry size entry writing.written
      else handle.writeEntry size entry writing.written

/-- `Sync`. Older segments were synced before their rollover. -/
def sync (flush : Flush) : Handle α × Except String Unit :=
  if handle.readOnly then (handle, .ok ())
  else
    match handle.fatal with
    | some err => (handle, .error err)
    | none => if handle.dirty then handle.syncCurrent flush else (handle, .ok ())

/-- Everything that was written, in order, with the segment it is in. -/
def written : List ((ℕ × α) × Residence) :=
  handle.allSegments.flatMap Segment.listing

def contents : List α := handle.written.map fun item => item.1.2

/-- The first entries of the log are on disk, in segments that the manifest names. -/
def DurableThrough (count : ℕ) : Prop :=
  ∀ position < count, handle.written[position]?.any
    fun item => item.2 = .durable ∧ item.1.1 ∈ handle.manifest

instance (count : ℕ) : Decidable (handle.DurableThrough count) :=
  inferInstanceAs (Decidable (∀ position < count, _))

/-- No failed fsync has dropped a write to the active segment. -/
def Intact : Prop := ∀ segment ∈ handle.current, segment.file.Intact

instance : Decidable handle.Intact :=
  inferInstanceAs (Decidable (∀ segment ∈ handle.current, _))

/-- The segment is on disk, and the manifest names it. -/
def Settled (segment : Segment α) : Prop :=
  segment.file.Durable ∧ segment.index ∈ handle.manifest

instance (segment : Segment α) : Decidable (handle.Settled segment) :=
  inferInstanceAs (Decidable (_ ∧ _))

/-- Everything that was written is on disk. -/
def AllSettled : Prop := ∀ segment ∈ handle.allSegments, handle.Settled segment

instance : Decidable handle.AllSettled :=
  inferInstanceAs (Decidable (∀ segment ∈ handle.allSegments, _))

/-- A log as it is opened: its segments are those that the manifest on disk names, and
what they hold is on disk. -/
def Opened : Prop :=
  handle.manifest = handle.allSegments.map Segment.index ∧ handle.AllSettled

instance : Decidable handle.Opened := inferInstanceAs (Decidable (_ ∧ _))

/-- The log that is created in an empty directory. -/
def created (maxSize maxBytes : ℕ) : Handle α where
  segments := []
  current := some ⟨1, .empty, 0⟩
  generation := 1
  maxSize
  maxBytes
  totalBytes := 0
  dirty := false
  fatal := none
  readOnly := false
  manifest := [1]

end Handle

/-- A log in use. A waiting or returned sync call is represented by the number of
entries whose append had returned when the call was made. -/
structure Journal (α : Type u) where
  handle : Handle α
  /-- The entries whose append returned without an error. -/
  appended : List α
  /-- The batch of the group commit that callers can still join. -/
  pending : Option (List ℕ)
  /-- The batch that the worker of the group commit is about to sync. -/
  taken : Option (List ℕ)
  /-- The sync calls that returned without an error. -/
  returned : List ℕ

/-- What can happen next to a log in use. -/
inductive Call (α : Type u) where
  | append (entry : α) (writing : Writing)
  | sync (flush : Flush)
  /-- A caller of the group commit joins the batch. -/
  | join
  /-- The worker closes the batch. -/
  | take
  /-- The worker syncs the log and shares the result. -/
  | flush (flush : Flush)

namespace Journal

variable {α : Type u} (size : α → ℕ) (journal : Journal α)

/-- The sync of the log for a list of callers, all of which get its result. -/
def syncFor (callers : List ℕ) (flush : Flush) : Journal α :=
  match journal.handle.sync flush with
  | (handle, .ok ()) => { journal with handle, returned := journal.returned ++ callers }
  | (handle, .error _) => { journal with handle }

def step (journal : Journal α) : Call α → Option (Journal α)
  | .append entry writing =>
    match journal.handle.append size entry writing with
    | (handle, .ok ()) => some { journal with handle, appended := journal.appended ++ [entry] }
    | (handle, .error _) => some { journal with handle }
  | .sync flush => some (journal.syncFor [journal.appended.length] flush)
  | .join =>
    some { journal with
      pending := some (journal.pending.getD [] ++ [journal.appended.length]) }
  | .take =>
    match journal.pending, journal.taken with
    | some batch, none => some { journal with pending := none, taken := some batch }
    | _, _ => none
  | .flush flush =>
    match journal.taken with
    | some batch => some (({ journal with taken := none }).syncFor batch flush)
    | none => none

def run (journal : Journal α) (calls : List (Call α)) : Option (Journal α) :=
  runFrom (step size) journal calls

/-- A log that was just opened, with the entries that were found in it. -/
def opened (handle : Handle α) : Journal α where
  handle
  appended := handle.contents
  pending := none
  taken := none
  returned := []

/-- The active segment is synced, or left for the next one, only while no failed fsync
has dropped bytes of it. -/
def Safe (journal : Journal α) : Call α → Prop
  | .append entry _ => journal.handle.rollsOver (size entry) → journal.handle.Intact
  | .sync _ | .flush _ => journal.handle.Intact
  | .join | .take => True

instance (journal : Journal α) : ∀ call, Decidable (journal.Safe size call)
  | .append entry _ => inferInstanceAs (Decidable (journal.handle.rollsOver (size entry) → _))
  | .sync _ | .flush _ => inferInstanceAs (Decidable journal.handle.Intact)
  | .join | .take => inferInstanceAs (Decidable True)

/-- Every sync call that returned without an error tells the truth about the entries
appended before it, and so does every rollover about the segment it left. -/
def Truthful : Prop :=
  journal.handle.contents = journal.appended ∧
    (∀ count ∈ journal.returned, journal.handle.DurableThrough count) ∧
    ∀ segment ∈ journal.handle.segments, journal.handle.Settled segment

end Journal

end Rhiza.QLog
