import Rhiza.Materializer.Restore

/-! # Recovery of an interrupted restore

What may lie on the disk between the steps of a restore, and that the recovery keeps to it. With no
journal, one of the two databases stands complete with its graph; under an uncommitted journal the
original can be rolled back; under a committed one the restored pair is in place.
-/

namespace Rhiza.Materializer

open Foundations Foundations.Prog

universe u v

variable {S : Type u} {G : Type v}

/-- The files of an opened materializer. Its database is up to date. -/
structure OpenedFiles (setup : Setup S G) where
  main : S
  wal : Option S
  graph : G
  backup : Option (DatabaseFile S)
  graphBackup : Option (GraphDir G)
  readerOpen : Bool
  current : setup.upgrade (wal.getD main) = none

namespace OpenedFiles

variable {setup : Setup S G} (files : OpenedFiles setup) (state : S) (graph : G)

def mainFile : DatabaseFile S := ⟨.original, files.main⟩

def walFile : Option (DatabaseFile S) := files.wal.map fun state => ⟨.original, state⟩

def disk : Disk S G where
  main := some files.mainFile
  wal := files.walFile
  backup := files.backup
  graph := (setup.stored files.graph).map .whole
  graphBackup := files.graphBackup
  journal := none
  temp := none
  staged := none
  misread := false

/-- The original main file, as it is or with the log folded into it. -/
def Original (file : DatabaseFile S) : Prop :=
  file = files.mainFile ∨ file = ⟨.original, files.wal.getD files.main⟩

/-- The original database, with its log or without it. -/
def Intact (disk : Disk S G) : Prop :=
  (∃ file, files.Original file ∧ disk.main = some file) ∧ disk.wal = none ∨
    disk.main = some files.mainFile ∧ disk.wal = files.walFile

/-- The original database stands in its place or as the backup, in which case the log is gone. -/
def MainRollable (disk : Disk S G) : Prop :=
  (∃ file, files.Original file ∧ disk.backup = some file) ∧ disk.wal = none ∨
    disk.backup = none ∧ files.Intact disk

def GraphRollable (disk : Disk S G) : Prop :=
  disk.graphBackup = some (.whole files.graph) ∨
    disk.graphBackup = none ∧ disk.graph = some (.whole files.graph)

/-- The restored pair is in place. -/
def Installed (disk : Disk S G) : Prop :=
  disk.main = some ⟨.snapshot, state⟩ ∧ disk.wal = none ∧ disk.graph = some (.whole graph)

/-- A restore is under way and can be rolled back. -/
structure Uncommitted (disk : Disk S G) : Prop where
  misread : disk.misread = false
  journal : ∃ phase, phase ≠ .committed ∧ disk.journal = some ⟨phase, true, true⟩
  main : files.MainRollable disk
  graph : files.GraphRollable disk

/-- Nothing is left to put back. -/
structure Discardable (disk : Disk S G) : Prop where
  misread : disk.misread = false
  stands : (∀ journal ∈ disk.journal, journal.phase ≠ .committed ∧ journal.installGraph = true ∧
      journal.graphHadOriginal = true) ∧ files.Intact disk ∧
      disk.graph = some (.whole files.graph) ∧
        (disk.journal ≠ none → disk.backup = none ∧ disk.graphBackup = none) ∨
    (∀ journal ∈ disk.journal, journal.phase = .committed) ∧ Installed state graph disk

/-- The restore is committed. -/
structure Finished (disk : Disk S G) : Prop where
  misread : disk.misread = false
  journal : ∀ journal ∈ disk.journal, journal.phase = .committed
  installed : Installed state graph disk

/-- What holds of the disk at every step. -/
def Restorable (disk : Disk S G) : Prop :=
  files.Uncommitted disk ∨ files.Discardable state graph disk

/-- A program after any crash of which the files can be recovered. -/
abbrev Keeps {α : Type} (before : Disk S G → Prop) (program : Prog (Disk S G) α)
    (after : α → Disk S G → Prop) : Prop :=
  Triple before program after (files.Restorable state graph)

variable {files state graph}

variable {disk : Disk S G}

theorem Uncommitted.restorable (h : files.Uncommitted disk) : files.Restorable state graph disk :=
  .inl h

theorem Finished.discardable (h : Finished state graph disk) : files.Discardable state graph disk :=
  ⟨h.misread, .inr ⟨h.journal, h.installed⟩⟩

theorem Discardable.restorable (h : files.Discardable state graph disk) :
    files.Restorable state graph disk :=
  .inr h

/-- An uncommitted restore with no backup left has nothing to put back. -/
theorem Uncommitted.discardable (h : files.Uncommitted disk)
    (hspare : disk.backup = none) (hgraph : disk.graphBackup = none) :
    files.Discardable state graph disk := by
  obtain ⟨phase, hphase, hbook⟩ := h.journal
  refine ⟨h.misread, .inl ⟨?_, ?_, ?_, fun _ => ⟨hspare, hgraph⟩⟩⟩
  · intro journal hmem
    rw [hbook, Option.mem_some_iff] at hmem
    subst hmem
    exact ⟨hphase, rfl, rfl⟩
  · cases h.main with
    | inl held =>
      obtain ⟨_, -, hsome⟩ := held.1
      cases hspare.symm.trans hsome
    | inr stands => exact stands.2
  · cases h.graph with
    | inl held => rw [hgraph] at held; cases held
    | inr stands => exact stands.2

theorem Intact.main_isSome (h : files.Intact disk) : disk.main.isSome := by
  obtain ⟨⟨file, -, hmain⟩, -⟩ | ⟨hmain, -⟩ := h
  · simp [hmain]
  · simp [hmain]

section Folding

variable {wal : DatabaseFile S}

theorem Intact.original_wal (h : files.Intact disk) (hwal : disk.wal = some wal) :
    files.Original wal := by
  obtain ⟨-, hnone⟩ | ⟨-, hlog⟩ := h
  · rw [hnone] at hwal
    cases hwal
  · rw [hlog, walFile, Option.map_eq_some_iff] at hwal
    obtain ⟨log, hlog, rfl⟩ := hwal
    exact .inr (by rw [hlog]; rfl)

theorem Uncommitted.folded (h : files.Uncommitted disk) : files.Uncommitted disk.folded := by
  obtain heq | ⟨wal, hwal, heq⟩ := disk.folded_cases
  · exact heq.symm ▸ h
  rw [heq]
  refine { h with main := ?_ }
  cases h.main with
  | inl held => cases hwal.symm.trans held.2
  | inr stands => exact .inr ⟨stands.1, .inl ⟨⟨wal, stands.2.original_wal hwal, rfl⟩, rfl⟩⟩

theorem Discardable.folded (h : files.Discardable state graph disk) :
    files.Discardable state graph disk.folded := by
  obtain heq | ⟨wal, hwal, heq⟩ := disk.folded_cases
  · exact heq.symm ▸ h
  rw [heq]
  refine ⟨h.misread, h.stands.imp ?_ ?_⟩
  · rintro ⟨hjournal, hintact, hrest⟩
    exact ⟨hjournal, .inl ⟨⟨wal, hintact.original_wal hwal, rfl⟩, rfl⟩, hrest⟩
  · exact fun restored => absurd (hwal.symm.trans restored.2.2.1) nofun

theorem Restorable.folded (h : files.Restorable state graph disk) :
    files.Restorable state graph disk.folded :=
  h.imp Uncommitted.folded Discardable.folded

variable (files) in
/-- The files once the log is folded. -/
def foldedFiles : OpenedFiles setup :=
  { files with main := files.wal.getD files.main, wal := none, current := files.current }

theorem Original.of_folded {file : DatabaseFile S} (h : files.foldedFiles.Original file) :
    files.Original file :=
  .inr (h.elim id id)

theorem Intact.of_folded (h : files.foldedFiles.Intact disk) : files.Intact disk := by
  obtain ⟨⟨file, horiginal, hmain⟩, hwal⟩ | ⟨hmain, hwal⟩ := h
  · exact .inl ⟨⟨file, horiginal.of_folded, hmain⟩, hwal⟩
  · exact .inl ⟨⟨_, .inr rfl, hmain⟩, hwal⟩

/-- What can be recovered after the log is folded can be recovered. -/
theorem Restorable.of_folded (h : files.foldedFiles.Restorable state graph disk) :
    files.Restorable state graph disk := by
  cases h with
  | inl uncommitted =>
    refine .inl { uncommitted with main := ?_ }
    obtain ⟨⟨file, horiginal, hbackup⟩, hwal⟩ | ⟨hbackup, hintact⟩ := uncommitted.main
    · exact .inl ⟨⟨file, horiginal.of_folded, hbackup⟩, hwal⟩
    · exact .inr ⟨hbackup, hintact.of_folded⟩
  | inr discardable =>
    refine .inr ⟨discardable.misread, discardable.stands.imp_left fun original => ?_⟩
    exact ⟨original.1, original.2.1.of_folded, original.2.2⟩

end Folding

section Rollback

/-- Looking whether a file is there. -/
theorem triple_stat {F : Type*} (place : Disk S G → Option F) {keep crash : Disk S G → Prop}
    (hcrash : ∀ disk, keep disk → crash disk) :
    Triple keep (fileStep fun disk => (present (place disk), disk))
      (fun result disk => keep disk ∧ (result = .ok → (place disk).isSome) ∧
        (result = .missing → place disk = none)) crash := by
  apply triple_atomic
  · intro disk h
    refine ⟨h, ?_⟩
    unfold present
    cases place disk <;> simp
  · exact fun disk h => ⟨h, nofun, nofun⟩
  · exact hcrash

/-- Putting the backup over the main file. -/
theorem triple_backupToMain :
    files.Keeps state graph (files.Uncommitted ·) backupToMain
      (fun result disk => files.Uncommitted disk ∧ (result = .ok → disk.backup = none)) := by
  unfold backupToMain fileStep
  apply triple_atomic
  · intro disk h
    unfold moveFile
    cases hspare : disk.backup with
    | none => exact ⟨{ h with main := by simpa [MainRollable, hspare, Intact] using h.main },
        fun _ => rfl⟩
    | some =>
      refine ⟨{ h with main := .inr ⟨rfl, ?_⟩ }, fun _ => rfl⟩
      cases h.main with
      | inl held =>
        rw [hspare] at held
        exact .inl held
      | inr stands => rw [hspare] at stands; cases stands.1
  · exact fun disk h => ⟨h, nofun⟩
  · exact fun disk h => h.restorable

theorem triple_removeMain (graphBackup : Option (GraphDir G) → Prop) :
    files.Keeps state graph (fun disk => files.Uncommitted disk ∧ disk.backup.isSome ∧
      graphBackup disk.graphBackup)
      removeMain
      (fun _ disk => files.Uncommitted disk ∧ disk.backup.isSome ∧
        graphBackup disk.graphBackup) := by
  unfold removeMain fileStep
  apply triple_atomic
  · intro disk h
    refine ⟨{ h.1 with main := ?_ }, h.2⟩
    cases h.1.main with
    | inl held => exact .inl held
    | inr stands => rw [stands.1] at h; cases h.2.1
  · exact fun disk h => h
  · exact fun disk h => h.1.restorable

theorem triple_rollBackMain :
    files.Keeps state graph (files.Uncommitted ·) rollBackMain
      (fun done disk => files.Uncommitted disk ∧ (done = true → disk.backup = none)) := by
  refine (triple_stat Disk.backup fun _ h => h.restorable).bind fun result => ?_
  cases result with
  | ok =>
    refine ((triple_removeMain fun _ => True).pre fun disk h => ⟨h.1, h.2.1 rfl, trivial⟩).bind
      fun _ => ?_
    refine (triple_backupToMain.pre fun disk h => h.1).bind fun result => ?_
    exact triple_pure fun disk h => ⟨h.1, fun hdone => h.2 (of_decide_eq_true hdone)⟩
  | missing => exact triple_pure fun disk h => ⟨h.1, fun _ => h.2.2 rfl⟩
  | failed => exact triple_pure fun disk h => ⟨h.1, nofun⟩

/-- Putting the graph's backup back, wherever the main file is. -/
theorem triple_backupToGraph (backup : Option (DatabaseFile S) → Prop) :
    files.Keeps state graph (fun disk => files.Uncommitted disk ∧ backup disk.backup) backupToGraph
      (fun result disk => (files.Uncommitted disk ∧ backup disk.backup) ∧
        (result = .ok → disk.graphBackup = none)) := by
  unfold backupToGraph fileStep
  apply triple_atomic
  · intro disk h
    have hgraph := h.1.graph
    unfold moveDirectory
    cases hspare : disk.graphBackup with
    | none =>
      refine ⟨⟨{ h.1 with graph := ?_ }, h.2⟩, fun _ => rfl⟩
      simpa [GraphRollable, hspare] using hgraph
    | some =>
      cases hstands : disk.graph with
      | none =>
        refine ⟨⟨{ h.1 with graph := .inr ⟨rfl, ?_⟩ }, h.2⟩, fun _ => rfl⟩
        simpa [GraphRollable, hspare] using hgraph
      | some =>
        refine ⟨⟨{ h.1 with graph := ?_ }, h.2⟩, nofun⟩
        simpa [GraphRollable, hspare] using hgraph
  · exact fun disk h => ⟨h, nofun⟩
  · exact fun disk h => h.1.restorable

theorem triple_removeGraph (backup : Option (DatabaseFile S) → Prop) :
    files.Keeps state graph (fun disk => (files.Uncommitted disk ∧ backup disk.backup) ∧
      disk.graphBackup.isSome)
      removeGraph
      (fun _ disk => (files.Uncommitted disk ∧ backup disk.backup) ∧ disk.graphBackup.isSome) := by
  have hheld : ∀ disk, files.Uncommitted disk → disk.graphBackup.isSome →
      disk.graphBackup = some (.whole files.graph) := by
    intro disk h hsome
    cases h.graph with
    | inl held => exact held
    | inr stands => rw [stands.1] at hsome; cases hsome
  apply triple_act
  · exact fun disk h => ⟨⟨{ h.1.1 with graph := .inl (hheld disk h.1.1 h.2) }, h.1.2⟩, h.2⟩
  · exact fun disk h => ⟨h, ⟨{ h.1.1 with graph := .inl (hheld disk h.1.1 h.2) }, h.1.2⟩, h.2⟩
  · exact fun disk h => ⟨h.1.1.restorable, .inl { h.1.1 with graph := .inl (hheld disk h.1.1 h.2) }⟩

theorem triple_rollBackGraph (phase : RestorePhase) :
    files.Keeps state graph (fun disk => files.Uncommitted disk ∧ disk.backup = none)
      (rollBackGraph ⟨phase, true, true⟩)
      (fun done disk => (files.Uncommitted disk ∧ disk.backup = none) ∧
        (done = true → disk.graphBackup = none)) := by
  refine (triple_stat Disk.graphBackup fun _ h => h.1.restorable).bind fun result => ?_
  cases result with
  | ok =>
    refine ((triple_removeGraph (· = none)).pre fun disk h => ⟨h.1, h.2.1 rfl⟩).bind fun _ => ?_
    refine ((triple_backupToGraph (· = none)).pre fun disk h => h.1).bind fun result => ?_
    exact triple_pure fun disk h => ⟨h.1, fun hdone => h.2 (of_decide_eq_true hdone)⟩
  | missing => exact triple_pure fun disk h => ⟨h.1, fun _ => h.2.2 rfl⟩
  | failed => exact triple_pure fun disk h => ⟨h.1, nofun⟩

end Rollback

section Discard

/-- A step that fails without an effect and otherwise keeps a condition. -/
theorem triple_fileStep_keep {effect : Disk S G → FileResult × Disk S G}
    {keep crash : Disk S G → Prop}
    (hkeep : ∀ disk, keep disk → keep (effect disk).2) (hcrash : ∀ disk, keep disk → crash disk) :
    Triple keep (fileStep effect) (fun _ => keep) crash :=
  triple_atomic hkeep (fun _ h => h) hcrash

theorem triple_syncDirectory {keep crash : Disk S G → Prop}
    (hcrash : ∀ disk, keep disk → crash disk) : Triple keep syncDirectory (fun _ => keep) crash :=
  triple_fileStep_keep (fun _ h => h) hcrash

/-- Discarding the backups and the journal keeps what does not depend on them. -/
theorem triple_discardBackups {keep : Disk S G → Prop}
    (hspare : ∀ disk, keep disk → keep { disk with backup := none })
    (hgraph : ∀ disk, keep disk → keep { disk with graphBackup := none })
    (htorn : ∀ disk, keep disk →
      keep { disk with graphBackup := disk.graphBackup.map fun _ => .torn })
    (hbook : ∀ disk, keep disk → keep { disk with journal := none }) :
    Triple keep discardBackups
      (fun done disk => keep disk ∧ (done = true → disk.journal = none)) keep := by
  have hstop : Triple keep (pure false : Prog (Disk S G) Bool)
      (fun done disk => keep disk ∧ (done = true → disk.journal = none)) keep :=
    triple_pure fun disk h => ⟨h, nofun⟩
  have hremove : Triple keep removeJournal
      (fun result disk => keep disk ∧ (result ≠ .failed → disk.journal = none)) keep := by
    unfold removeJournal fileStep
    apply triple_atomic
    · exact fun disk h => ⟨hbook disk h, fun _ => rfl⟩
    · exact fun disk h => ⟨h, fun hok => absurd rfl hok⟩
    · exact fun disk h => h
  refine (triple_fileStep_keep hspare fun _ h => h).bind fun _ => ?_
  have hremoveGraph : Triple keep removeGraphBackup (fun _ => keep) keep := by
    apply triple_act
    · exact hgraph
    · exact fun disk h => ⟨h, htorn disk h⟩
    · exact fun disk h => ⟨h, htorn disk h⟩
  refine hremoveGraph.bind fun _ => ?_
  refine (triple_syncDirectory fun _ h => h).bind fun result => ?_
  cases result with
  | missing | failed => exact hstop
  | ok =>
    refine hremove.bind fun result => ?_
    have hsync : result ≠ .failed → Triple
        (fun disk => keep disk ∧ (result ≠ .failed → disk.journal = none))
        (do return decide ((← syncDirectory) = .ok))
        (fun done disk => keep disk ∧ (done = true → disk.journal = none)) keep := by
      intro hok
      refine (triple_syncDirectory fun disk h => h.1).bind fun _ => ?_
      exact triple_pure fun disk h => ⟨h.1, fun _ => h.2 hok⟩
    cases result with
    | failed => exact triple_pure fun disk h => ⟨h.1, nofun⟩
    | ok => exact hsync nofun
    | missing => exact hsync nofun

theorem Discardable.triple_discardBackups :
    Triple (files.Discardable state graph) discardBackups
      (fun done disk => files.Discardable state graph disk ∧ (done = true → disk.journal = none))
      (files.Discardable state graph) := by
  apply OpenedFiles.triple_discardBackups
  · intro disk h
    refine ⟨h.misread, h.stands.imp_left ?_⟩
    rintro ⟨hbook, hint, hgraph, hcopies⟩
    exact ⟨hbook, hint, hgraph, fun hsome => ⟨rfl, (hcopies hsome).2⟩⟩
  · intro disk h
    refine ⟨h.misread, h.stands.imp_left ?_⟩
    rintro ⟨hbook, hint, hgraph, hcopies⟩
    exact ⟨hbook, hint, hgraph, fun hsome => ⟨(hcopies hsome).1, rfl⟩⟩
  · intro disk h
    refine ⟨h.misread, h.stands.imp_left ?_⟩
    rintro ⟨hbook, hint, hgraph, hcopies⟩
    refine ⟨hbook, hint, hgraph, fun hsome => ⟨(hcopies hsome).1, ?_⟩⟩
    simp [(hcopies hsome).2]
  · intro disk h
    refine ⟨h.misread, h.stands.imp ?_ ?_⟩
    · rintro ⟨-, hint, hgraph, -⟩
      exact ⟨nofun, hint, hgraph, fun hsome => absurd rfl hsome⟩
    · exact fun restored => ⟨nofun, restored.2⟩

end Discard

section Recover

/-- A journal that is found says which of the two cases it is. -/
def Found (files : OpenedFiles setup) (state : S) (graph : G) (disk : Disk S G) :
    JournalRead → Prop
  | .found journal =>
    journal.phase ≠ .committed ∧ journal = ⟨journal.phase, true, true⟩ ∧ files.Uncommitted disk ∨
      journal.phase = .committed ∧ files.Discardable state graph disk
  | .missing => files.Discardable state graph disk ∧ disk.journal = none
  | .failed => files.Restorable state graph disk

theorem found_of_restorable {disk : Disk S G} (h : files.Restorable state graph disk) :
    Found files state graph disk ((disk.journal.map .found).getD .missing) := by
  cases h with
  | inl uncommitted =>
    obtain ⟨phase, hphase, hbook⟩ := uncommitted.journal
    rw [hbook]
    exact .inl ⟨hphase, rfl, uncommitted⟩
  | inr discardable =>
    cases hbook : disk.journal with
    | none => exact ⟨discardable, hbook⟩
    | some journal =>
      cases discardable.stands with
      | inr restored => exact .inr ⟨restored.1 journal hbook, discardable⟩
      | inl original =>
        obtain ⟨hflags, hint, hgraph, hcopies⟩ := original
        obtain ⟨hphase, hput, hhad⟩ := hflags journal hbook
        obtain ⟨hspare, htwin⟩ := hcopies (by simp [hbook])
        have heq : journal = ⟨journal.phase, true, true⟩ := by
          cases journal
          simp_all
        refine .inl ⟨hphase, heq, discardable.misread, ⟨_, hphase, ?_⟩, .inr ⟨hspare, hint⟩,
          .inr ⟨htwin, hgraph⟩⟩
        rw [hbook, ← heq]

/-- The recovery keeps to what may lie on the disk, and when it returns nil the journal is gone. -/
theorem triple_recoverRestore :
    files.Keeps state graph (files.Restorable state graph) recoverRestore
      (fun done disk => files.Restorable state graph disk ∧
        (done = true → files.Discardable state graph disk ∧ disk.journal = none)) := by
  have hread : files.Keeps state graph (files.Restorable state graph) readRestoreState
      (fun result disk => Found files state graph disk result) :=
    triple_atomic (fun disk h => found_of_restorable h) (fun _ h => h) fun _ h => h
  have hdiscard : files.Keeps state graph (files.Discardable state graph) discardBackups
      (fun done disk => files.Restorable state graph disk ∧
        (done = true → files.Discardable state graph disk ∧ disk.journal = none)) :=
    Discardable.triple_discardBackups.imp
      (fun _ _ h => ⟨h.1.restorable, fun hdone => ⟨h.1, h.2 hdone⟩⟩) fun _ h => h.restorable
  refine hread.bind fun result => ?_
  cases result with
  | missing => exact triple_pure fun disk h => ⟨h.1.restorable, fun _ => h⟩
  | failed => exact triple_pure fun disk h => ⟨h, nofun⟩
  | found journal =>
    dsimp only
    split
    · rename_i hphase
      exact hdiscard.pre fun disk h => (Or.resolve_left h fun h => h.1 hphase).2
    · rename_i hphase
      have hfound : ∀ disk, Found files state graph disk (.found journal) →
          journal = ⟨journal.phase, true, true⟩ ∧ files.Uncommitted disk :=
        fun disk h => (Or.resolve_right h fun h => hphase h.1).2
      -- The flags of the journal are those the restore wrote, so the graph is rolled back as well.
      by_cases hflags : journal = ⟨journal.phase, true, true⟩
      · rw [hflags]
        refine (triple_rollBackMain.pre fun disk h => (hfound disk (hflags ▸ h)).2).bind
          fun done => ?_
        cases done with
        | false => exact triple_pure fun disk h => ⟨h.1.restorable, nofun⟩
        | true =>
          refine ((triple_rollBackGraph journal.phase).pre fun disk h => ⟨h.1, h.2 rfl⟩).bind
            fun done => ?_
          cases done with
          | false => exact triple_pure fun disk h => ⟨h.1.1.restorable, nofun⟩
          | true =>
            exact hdiscard.pre fun disk h => h.1.1.discardable h.1.2 (h.2 rfl)
      · exact fun world h => absurd (hfound world.state h).1 hflags

/-- The recovery leaves a committed restore in place. -/
theorem Finished.triple_recoverRestore :
    Triple (Finished state graph) (recoverRestore : Prog (Disk S G) Bool)
      (fun done disk => Finished state graph disk ∧ (done = true → disk.journal = none))
      (Finished state graph) := by
  have hread : Triple (Finished state graph) (readRestoreState : Prog (Disk S G) JournalRead)
      (fun result disk => Finished state graph disk ∧
        (∀ journal, result = .found journal → journal.phase = .committed) ∧
        (result = .missing → disk.journal = none)) (Finished state graph) := by
    apply triple_atomic
    · intro disk h
      refine ⟨h, ?_⟩
      have hpaid := h.journal
      cases hbook : disk.journal with
      | none => simp
      | some => simpa [hbook] using hpaid
    · exact fun disk h => ⟨h, nofun, nofun⟩
    · exact fun disk h => h
  have hdiscard : Triple (Finished state graph) (discardBackups : Prog (Disk S G) Bool)
      (fun done disk => Finished state graph disk ∧ (done = true → disk.journal = none))
      (Finished state graph) :=
    triple_discardBackups (fun _ h => { h with }) (fun _ h => { h with }) (fun _ h => { h with })
      fun _ h => { h with journal := nofun }
  refine hread.bind fun result => ?_
  cases result with
  | missing => exact triple_pure fun disk h => ⟨h.1, fun _ => h.2.2 rfl⟩
  | failed => exact triple_pure fun disk h => ⟨h.1, nofun⟩
  | found journal =>
    dsimp only
    split
    · exact hdiscard.pre fun disk h => h.1
    · rename_i hphase
      exact fun world h => absurd (h.2.1 journal rfl) hphase

end Recover

end OpenedFiles

end Rhiza.Materializer
