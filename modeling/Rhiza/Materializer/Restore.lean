import Mathlib.Data.Option.Basic
import Rhiza.Foundations.CrashProgram

/-! # Restoring a checkpoint

The files that `RestoreCheckpoint` moves, and its steps over them. The SQL state is the main
database file with its write-ahead log. Every step may fail or be the last before a crash; renames
and removals of files are atomic, the removal of a directory is not.
-/

namespace Rhiza.Materializer

open Foundations Foundations.Prog

universe u v

/-- Which database a file was written for. -/
inductive Origin where
  | original
  | snapshot
  | created
  deriving DecidableEq

structure DatabaseFile (S : Type u) where
  origin : Origin
  state : S

/-- A directory of the graph store, or what the removal of one left. -/
inductive GraphDir (G : Type v) where
  | whole (graph : G)
  | torn

inductive RestorePhase where
  | prepared
  | sqliteBackedUp
  | graphInstalled
  | sqliteInstalled
  | committed
  deriving DecidableEq

/-- The restore journal. -/
structure RestoreState where
  phase : RestorePhase
  installGraph : Bool
  graphHadOriginal : Bool
  deriving DecidableEq

structure Disk (S : Type u) (G : Type v) where
  main : Option (DatabaseFile S)
  wal : Option (DatabaseFile S)
  backup : Option (DatabaseFile S)
  graph : Option (GraphDir G)
  graphBackup : Option (GraphDir G)
  journal : Option RestoreState
  temp : Option (DatabaseFile S)
  staged : Option (GraphDir G)
  /-- SQLite has opened a main file beside the log of another one. -/
  misread : Bool

/-- What a materializer is opened with. Opening brings a database to the current schema, which
writes to the log if it is older. Some managed ones keep no graph. -/
structure Setup (S : Type u) (G : Type v) where
  upgrade : S → Option S
  blank : S
  blankGraph : G
  managed : Bool
  graphed : Bool
  graphed_of_unmanaged : managed = false → graphed = true

inductive FileResult where
  | ok
  | missing
  | failed
  deriving DecidableEq

inductive Access where
  | writable
  | readOnly
  deriving DecidableEq

section Moves

variable {F : Type u}

/-- Renaming a file replaces what stands in its way. -/
def moveFile (source target : Option F) : FileResult × Option F × Option F :=
  match source with
  | none => (.missing, none, target)
  | some file => (.ok, none, some file)

/-- Renaming a directory does not. -/
def moveDirectory (source target : Option F) : FileResult × Option F × Option F :=
  match source, target with
  | none, target => (.missing, none, target)
  | some directory, none => (.ok, none, some directory)
  | some directory, some other => (.failed, some directory, some other)

def present (file : Option F) : FileResult :=
  if file.isSome then .ok else .missing

end Moves

variable {S : Type u} {G : Type v}

/-- The graph that is stored for a graph. -/
def Setup.stored (setup : Setup S G) (graph : G) : Option G :=
  if setup.graphed then some graph else none

namespace Disk

/-- The log beside the main file is its own. -/
def walBelongs (disk : Disk S G) : Bool :=
  match disk.main, disk.wal with
  | some file, some wal => wal.origin = file.origin
  | _, none => true
  | none, some _ => false

/-- What SQLite reads. With a foreign log it is no state of either database. -/
def sql (disk : Disk S G) : Option S :=
  match disk.main, disk.wal with
  | some file, some wal => if wal.origin = file.origin then some wal.state else none
  | some file, none => some file.state
  | none, _ => none

/-- Folds the log into the main file. -/
def folded (disk : Disk S G) : Disk S G :=
  match disk.main, disk.wal with
  | some file, some wal =>
    if wal.origin = file.origin then { disk with main := some wal, wal := none } else disk
  | _, _ => disk

theorem folded_cases (disk : Disk S G) : disk.folded = disk ∨
    ∃ wal, disk.wal = some wal ∧ disk.folded = { disk with main := some wal, wal := none } := by
  unfold folded
  split
  · split
    · exact .inr ⟨_, ‹_›, rfl⟩
    · exact .inl rfl
  · exact .inl rfl

/-- Closes connections in this order. Only the last one folds the log, if it may write. -/
def closeAll : List Access → Disk S G → Disk S G
  | [], disk => disk
  | [.writable], disk => disk.folded
  | [.readOnly], disk => disk
  | _ :: connection :: rest, disk => closeAll (connection :: rest) disk

/-- What opening a materializer writes. -/
def opened (setup : Setup S G) (disk : Disk S G) : Disk S G :=
  let graph :=
    if setup.graphed then some (disk.graph.getD (.whole setup.blankGraph)) else disk.graph
  let disk := { disk with graph, misread := disk.misread || !disk.walBelongs }
  match disk.main with
  | none => { disk with main := some ⟨.created, setup.blank⟩, wal := some ⟨.created, setup.blank⟩ }
  | some file =>
    match disk.sql.bind setup.upgrade with
    | none => disk
    | some state => { disk with wal := some ⟨file.origin, state⟩ }

end Disk

/-- The checkpoint to restore. A checkpoint without a graph leaves the graph store alone. -/
structure SnapshotParts (S : Type u) (G : Type v) where
  state : S
  graph : Option G

section Steps

abbrev FileOp (S G : Type*) := Prog (Disk S G) FileResult

/-- A step on one file. -/
def fileStep (effect : Disk S G → FileResult × Disk S G) : FileOp S G :=
  atomic effect .failed

def statBackup : FileOp S G :=
  fileStep fun disk => (present disk.backup, disk)

def statGraphBackup : FileOp S G :=
  fileStep fun disk => (present disk.graphBackup, disk)

def statGraph : FileOp S G :=
  fileStep fun disk => (present disk.graph, disk)

def removeMain : FileOp S G :=
  fileStep fun disk => (present disk.main, { disk with main := none })

def removeWal : FileOp S G :=
  fileStep fun disk => (present disk.wal, { disk with wal := none })

/-- The shared-memory file holds no state. -/
def removeShm : FileOp S G :=
  fileStep fun disk => (.ok, disk)

def removeBackup : FileOp S G :=
  fileStep fun disk => (present disk.backup, { disk with backup := none })

def removeJournal : FileOp S G :=
  fileStep fun disk => (present disk.journal, { disk with journal := none })

def removeTemp : FileOp S G :=
  fileStep fun disk => (present disk.temp, { disk with temp := none })

def syncDirectory : FileOp S G :=
  fileStep fun disk => (.ok, disk)

def mainToBackup : FileOp S G :=
  fileStep fun disk =>
    let (result, main, backup) := moveFile disk.main disk.backup
    (result, { disk with main, backup })

def backupToMain : FileOp S G :=
  fileStep fun disk =>
    let (result, backup, main) := moveFile disk.backup disk.main
    (result, { disk with main, backup })

def tempToMain : FileOp S G :=
  fileStep fun disk =>
    let (result, temp, main) := moveFile disk.temp disk.main
    (result, { disk with main, temp })

def graphToBackup : FileOp S G :=
  fileStep fun disk =>
    let (result, graph, graphBackup) := moveDirectory disk.graph disk.graphBackup
    (result, { disk with graph, graphBackup })

def backupToGraph : FileOp S G :=
  fileStep fun disk =>
    let (result, graphBackup, graph) := moveDirectory disk.graphBackup disk.graph
    (result, { disk with graph, graphBackup })

def stagedToGraph : FileOp S G :=
  fileStep fun disk =>
    let (result, staged, graph) := moveDirectory disk.staged disk.graph
    (result, { disk with graph, staged })

/-- `os.RemoveAll` on the graph directory. -/
def removeGraph : FileOp S G :=
  act (fun disk => (.ok, { disk with graph := none })) .failed
    fun disk => { disk with graph := disk.graph.map fun _ => .torn }

def removeGraphBackup : FileOp S G :=
  act (fun disk => (.ok, { disk with graphBackup := none })) .failed
    fun disk => { disk with graphBackup := disk.graphBackup.map fun _ => .torn }

def removeStaged : FileOp S G :=
  act (fun disk => (.ok, { disk with staged := none })) .failed
    fun disk => { disk with staged := disk.staged.map fun _ => .torn }

/-- The journal is written aside, synced and renamed to its place. -/
def writeRestoreState (state : RestoreState) : Prog (Disk S G) FileResult := do
  match ← fileStep fun disk => (.ok, { disk with journal := some state }) with
  | .ok => syncDirectory
  | result => pure result

/-- The metadata connection, the writer and the readers are closed in this order. A reader has a
connection only if it was used. The log also stays if it cannot be folded, and no error tells. -/
def closeConnections (readerOpen : Bool) : Prog (Disk S G) Unit :=
  let readers := if readerOpen then [.readOnly] else []
  atomic (fun disk => ((), disk.closeAll (.writable :: .writable :: readers))) ()

/-- A materializer that fails to open, or is not the one expected, is closed again. -/
def openMaterializerPolicy (setup : Setup S G) : Prog (Disk S G) Bool := do
  if ← act (fun disk => (true, disk.opened setup)) false fun disk => disk.opened setup then
    return true
  else
    closeConnections false
    return false

/-- The receipt check, the copies of the checkpoint's files and the checks of the copies. -/
def stageParts (parts : SnapshotParts S G) : FileOp S G :=
  fileStep fun disk =>
    (.ok, { disk with temp := some ⟨.snapshot, parts.state⟩
                      staged := parts.graph.map .whole })

end Steps

section Recovery

/-- The journal as read back. -/
inductive JournalRead where
  | found (state : RestoreState)
  | missing
  | failed

def readRestoreState : Prog (Disk S G) JournalRead :=
  atomic (fun disk => ((disk.journal.map .found).getD .missing, disk)) .failed

def rollBackMain : Prog (Disk S G) Bool := do
  match ← statBackup with
  | .ok =>
    let _ ← removeMain
    return (← backupToMain) = .ok
  | .missing => return true
  | .failed => return false

def rollBackGraph (state : RestoreState) : Prog (Disk S G) Bool := do
  if state.installGraph then
    if state.graphHadOriginal then
      match ← statGraphBackup with
      | .ok =>
        let _ ← removeGraph
        return (← backupToGraph) = .ok
      | .missing => return true
      | .failed => return false
    else
      let _ ← removeGraph
      return true
  else
    return true

def discardBackups : Prog (Disk S G) Bool := do
  let _ ← removeBackup
  let _ ← removeGraphBackup
  match ← syncDirectory with
  | .ok =>
    match ← removeJournal with
    | .failed => return false
    | _ => return (← syncDirectory) = .ok
  | _ => return false

def recoverRestore : Prog (Disk S G) Bool := do
  match ← readRestoreState with
  | .missing => return true
  | .failed => return false
  | .found state =>
    if state.phase = .committed then
      discardBackups
    else if ← rollBackMain then
      if ← rollBackGraph state then discardBackups else return false
    else
      return false

/-- A managed materializer is reopened without a recovery. -/
def reopen (setup : Setup S G) : Prog (Disk S G) Bool := do
  if setup.managed then
    openMaterializerPolicy setup
  else if ← recoverRestore then
    openMaterializerPolicy setup
  else
    return false

/-- The call fails in every case. -/
def rollback (setup : Setup S G) : Prog (Disk S G) Bool := do
  let _ ← recoverRestore
  let _ ← reopen setup
  return false

end Recovery

section Restore

variable (setup : Setup S G) (readerOpen : Bool) (parts : SnapshotParts S G)

def commitRestore (state : RestoreState) : Prog (Disk S G) Bool := do
  match ← writeRestoreState { state with phase := .committed } with
  | .ok =>
    if ← recoverRestore then
      return true
    else
      closeConnections false
      rollback setup
  | _ =>
    closeConnections false
    rollback setup

/-- Puts the graph and then the database back where they were. -/
def compensate (graphInstalled graphBackedUp : Bool) : Prog (Disk S G) Unit := do
  if graphInstalled then
    let _ ← removeGraph
  if graphBackedUp then
    let _ ← backupToGraph
  let _ ← backupToMain

def openRestored (state : RestoreState) (graphInstalled graphBackedUp : Bool) :
    Prog (Disk S G) Bool := do
  if ← openMaterializerPolicy setup then
    commitRestore setup state
  else
    let _ ← removeMain
    compensate graphInstalled graphBackedUp
    rollback setup

/-- Syncs the directory and writes the next phase, and goes on if both succeed. -/
def advance (state : RestoreState) (next : Prog (Disk S G) Bool) : Prog (Disk S G) Bool := do
  match ← syncDirectory with
  | .ok =>
    match ← writeRestoreState state with
    | .ok => next
    | _ => rollback setup
  | _ => rollback setup

def installMain (state : RestoreState) (graphInstalled graphBackedUp : Bool) :
    Prog (Disk S G) Bool := do
  match ← tempToMain with
  | .ok =>
    advance setup { state with phase := .sqliteInstalled }
      (openRestored setup { state with phase := .sqliteInstalled } graphInstalled graphBackedUp)
  | _ =>
    compensate graphInstalled graphBackedUp
    rollback setup

def installGraph (state : RestoreState) : Prog (Disk S G) Bool := do
  if state.installGraph then
    match ← graphToBackup with
    | .failed =>
      compensate false false
      rollback setup
    | result =>
      match ← stagedToGraph with
      | .ok =>
        advance setup { state with phase := .graphInstalled }
          (installMain setup { state with phase := .graphInstalled } true (result = .ok))
      | _ =>
        compensate false (result = .ok)
        rollback setup
  else
    installMain setup state false false

def backUpMain (state : RestoreState) : Prog (Disk S G) Bool := do
  match ← mainToBackup with
  | .failed => rollback setup
  | _ =>
    advance setup { state with phase := .sqliteBackedUp }
      (installGraph setup { state with phase := .sqliteBackedUp })

def removeSidecars (state : RestoreState) : Prog (Disk S G) Bool := do
  match ← removeWal with
  | .failed => rollback setup
  | _ =>
    match ← removeShm with
    | .failed => rollback setup
    | _ => backUpMain setup state

def restoreParts : Prog (Disk S G) Bool := do
  match ← stageParts parts with
  | .ok =>
    match ← statBackup with
    | .missing =>
      match ← statGraphBackup with
      | .missing =>
        match ← statGraph with
        | .failed => return false
        | graphStat =>
          let state := ⟨.prepared, parts.graph.isSome, graphStat = .ok⟩
          match ← writeRestoreState state with
          | .ok =>
            closeConnections readerOpen
            removeSidecars setup state
          | _ => return false
      | _ => return false
    | _ => return false
  | _ => return false

/-- The copies that were not installed are removed at the end. -/
def restoreCheckpoint : Prog (Disk S G) Bool := do
  let restored ← restoreParts setup readerOpen parts
  let _ ← removeTemp
  let _ ← removeStaged
  return restored

end Restore

end Rhiza.Materializer
