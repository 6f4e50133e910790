import Rhiza.Materializer.RestoreRecovery

/-! # The steps of a restore

Every step of `restoreParts` is taken from a known disk. A step that fails leads to a rollback,
from a disk that the recovery can handle.
-/

namespace Rhiza.Materializer

open Foundations Foundations.Prog

universe u v

variable {S : Type u} {G : Type v} {disk : Disk S G} {next : FileResult → Prog (Disk S G) Bool}
  {final : Bool → Disk S G → Prop} {crash : Disk S G → Prop}

/-- A step from a known disk. -/
theorem triple_fileStep {effect : Disk S G → FileResult × Disk S G} (hcrash : crash disk) :
    Triple (· = disk) (fileStep effect)
      (fun result after => result = (effect disk).1 ∧ after = (effect disk).2 ∨
        result = .failed ∧ after = disk) crash := by
  apply triple_atomic
  · rintro _ rfl
    exact .inl ⟨rfl, rfl⟩
  · exact fun _ h => .inr ⟨rfl, h⟩
  · rintro _ rfl
    exact hcrash

/-- What follows if the step is done and if it fails. -/
theorem triple_fileStep_bind {effect : Disk S G → FileResult × Disk S G} (hcrash : crash disk)
    (hdone : Triple (· = (effect disk).2) (next (effect disk).1) final crash)
    (hfail : Triple (· = disk) (next .failed) final crash) :
    Triple (· = disk) (fileStep effect >>= next) final crash := by
  refine (triple_fileStep hcrash).bind fun result world h => ?_
  cases h with
  | inl done => exact done.1 ▸ hdone world done.2
  | inr failed => exact failed.1 ▸ hfail world failed.2

theorem triple_writeRestoreState_bind {journal : RestoreState} (hcrash : crash disk)
    (hwrote : crash { disk with journal := some journal })
    (hdone : Triple (· = { disk with journal := some journal }) (next .ok) final crash)
    (hfail : Triple (fun after => after = disk ∨ after = { disk with journal := some journal })
      (next .failed) final crash) :
    Triple (· = disk) (writeRestoreState journal >>= next) final crash := by
  have hwrite : Triple (· = disk) (writeRestoreState journal)
      (fun result after => result = .ok ∧ after = { disk with journal := some journal } ∨
        result = .failed ∧ (after = disk ∨ after = { disk with journal := some journal }))
          crash := by
    refine (triple_fileStep hcrash).bind fun result => ?_
    cases result with
    | missing => exact triple_pure fun _ h => by simp at h
    | failed => exact triple_pure fun _ h => .inr ⟨rfl, .inl (by simpa using h)⟩
    | ok =>
      apply triple_atomic
      · exact fun _ h => .inl ⟨rfl, by simpa using h⟩
      · exact fun _ h => .inr ⟨rfl, .inr (by simpa using h)⟩
      · intro after h
        have hafter : after = { disk with journal := some journal } := by simpa using h
        rw [hafter]
        exact hwrote
  refine hwrite.bind fun result world h => ?_
  cases h with
  | inl done => exact done.1 ▸ hdone world done.2
  | inr failed => exact failed.1 ▸ hfail world failed.2

namespace OpenedFiles

variable {setup : Setup S G} (files : OpenedFiles setup) (state : S) (graph : G)

/-- The SQL state with the graph, before the call. -/
def before : Option S × Option (GraphDir G) :=
  (some (files.wal.getD files.main), (setup.stored files.graph).map .whole)

/-- The checkpoint's, as a materializer opens it. -/
def restored (setup : Setup S G) (state : S) (graph : G) : Option S × Option (GraphDir G) :=
  (some ((setup.upgrade state).getD state), (setup.stored graph).map .whole)

def Acceptable (pair : Option S × Option (GraphDir G)) : Prop :=
  pair = files.before ∨ pair = restored setup state graph

/-- The main file without its log makes one of the two pairs with the graph, opening the checkpoint
writes nothing, and reopening recovers first. -/
structure Safe : Prop where
  alone : files.Acceptable state graph (some files.main, some (.whole files.graph))
  upToDate : setup.upgrade state = none
  unmanaged : setup.managed = false

variable {files state graph} {disk : Disk S G}

theorem Safe.graphed (safe : files.Safe state graph) : setup.graphed = true :=
  setup.graphed_of_unmanaged safe.unmanaged

theorem Safe.stored (safe : files.Safe state graph) (graph : G) : setup.stored graph = some graph :=
  if_pos safe.graphed

theorem Safe.folded (safe : files.Safe state graph) : files.foldedFiles.Safe state graph where
  alone := .inl (by rw [before, safe.stored]; rfl)
  upToDate := safe.upToDate
  unmanaged := safe.unmanaged

/-- What a settled disk holds is one of the two pairs, and its log is its own. -/
theorem Discardable.acceptable (safe : files.Safe state graph)
    (h : files.Discardable state graph disk) :
    files.Acceptable state graph (disk.sql, disk.graph) ∧ disk.walBelongs := by
  cases h.stands with
  | inl original =>
    obtain ⟨-, ⟨⟨file, horiginal, hmain⟩, hwal⟩ | ⟨hmain, hwal⟩, hgraph, -⟩ := original
    · refine ⟨?_, by simp [Disk.walBelongs, hmain, hwal]⟩
      obtain rfl | rfl := horiginal
      · simpa [Disk.sql, hmain, hwal, hgraph, mainFile] using safe.alone
      · exact .inl (by simp [Disk.sql, hmain, hwal, hgraph, before, safe.stored])
    · cases hlog : files.wal with
      | none =>
        refine ⟨?_, by simp [Disk.walBelongs, hmain, hwal, walFile, hlog]⟩
        simpa [Disk.sql, hmain, hwal, walFile, hlog, hgraph, mainFile] using safe.alone
      | some =>
        refine ⟨.inl ?_, by simp [Disk.walBelongs, hmain, hwal, walFile, hlog, mainFile]⟩
        simp [Disk.sql, hmain, hwal, walFile, hlog, hgraph, mainFile, before, safe.stored]
  | inr restored =>
    obtain ⟨-, hmain, hwal, hgraph⟩ := restored
    refine ⟨.inr ?_, by simp [Disk.walBelongs, hwal, hmain]⟩
    simp [Disk.sql, hmain, hwal, hgraph, OpenedFiles.restored, safe.upToDate, safe.stored]

/-- Opening a settled disk writes nothing. -/
theorem Discardable.opened (safe : files.Safe state graph)
    (h : files.Discardable state graph disk) : disk.opened setup = disk := by
  have hbelongs := (h.acceptable safe).2
  have hpair := (h.acceptable safe).1
  have hstate : disk.sql.bind setup.upgrade = none := by
    cases hpair with
    | inl original =>
      rw [show disk.sql = _ from congrArg Prod.fst original]
      exact files.current
    | inr restored =>
      rw [show disk.sql = _ from congrArg Prod.fst restored]
      simp [OpenedFiles.restored, safe.upToDate]
  have hsome : disk.main.isSome ∧ disk.graph.isSome := by
    cases h.stands with
    | inl original => exact ⟨original.2.1.main_isSome, by simp [original.2.2.1]⟩
    | inr restored => simp [restored.2.1, restored.2.2.2]
  obtain ⟨file, hfile⟩ := Option.isSome_iff_exists.mp hsome.1
  obtain ⟨directory, hdirectory⟩ := Option.isSome_iff_exists.mp hsome.2
  have hmisread := h.misread
  obtain ⟨main, wal, backup, diskGraph, graphBackup, journal, temp, staged, misread⟩ := disk
  dsimp only at hfile hdirectory hmisread
  subst hfile hdirectory hmisread
  have hsql : (⟨some file, wal, backup, some directory, graphBackup, journal, temp, staged,
      false⟩ : Disk S G).sql.bind setup.upgrade = none := hstate
  simp only [Disk.opened, safe.graphed, if_true, hbelongs, Bool.not_true, Bool.or_false,
    Option.getD_some, hsql]

section Rollback

/-- Closing folds the log or keeps it. -/
theorem triple_closeConnections {keep crash : Disk S G → Prop} (readerOpen : Bool)
    (hkeep : ∀ disk, keep disk → keep disk.folded) (hcrash : ∀ disk, keep disk → crash disk) :
    Triple keep (closeConnections readerOpen) (fun _ => keep) crash := by
  apply triple_atomic
  · cases readerOpen with
    | true => exact fun _ h => h
    | false => exact hkeep
  · exact fun _ h => h
  · exact hcrash

theorem triple_closeRestorable :
    files.Keeps state graph (files.Restorable state graph) (closeConnections false)
      (fun _ => files.Restorable state graph) :=
  triple_closeConnections false (fun _ h => h.folded) fun _ h => h

/-- What opening and closing keep. -/
theorem triple_openMaterializerPolicy {keep crash : Disk S G → Prop}
    (hopened : ∀ disk, keep disk → keep (disk.opened setup))
    (hfolded : ∀ disk, keep disk → keep disk.folded) (hcrash : ∀ disk, keep disk → crash disk) :
    Triple keep (openMaterializerPolicy setup) (fun _ => keep) crash := by
  have hopen : Triple keep (act (fun disk => (true, disk.opened setup)) false
      fun disk => disk.opened setup) (fun _ => keep) crash :=
    triple_act hopened (fun disk h => ⟨h, hopened disk h⟩)
      fun disk h => ⟨hcrash disk h, hcrash _ (hopened disk h)⟩
  refine hopen.bind fun done => ?_
  cases done with
  | true => exact triple_pure fun _ h => h
  | false =>
    exact (triple_closeConnections false hfolded hcrash).bind fun _ => triple_pure fun _ h => h

theorem triple_reopen (safe : files.Safe state graph) :
    files.Keeps state graph (files.Restorable state graph) (reopen setup)
      (fun _ => files.Restorable state graph) := by
  unfold reopen
  rw [safe.unmanaged]
  refine triple_recoverRestore.bind fun done => ?_
  cases done with
  | true =>
    have hopen : files.Keeps state graph (files.Discardable state graph)
        (openMaterializerPolicy setup)
        (fun _ => files.Discardable state graph) :=
      triple_openMaterializerPolicy (fun _ h => (h.opened safe).symm ▸ h) (fun _ h => h.folded)
        fun _ h => h.restorable
    exact (hopen.pre fun disk h => (h.2 rfl).1).post fun _ _ h => h.restorable
  | false => exact triple_pure fun disk h => h.1

theorem triple_rollback (safe : files.Safe state graph) :
    files.Keeps state graph (files.Restorable state graph) (rollback setup)
      (fun done disk => done = false ∧ files.Restorable state graph disk) := by
  refine (triple_recoverRestore.post fun _ _ h => h.1).bind fun _ => ?_
  refine (triple_reopen safe).bind fun _ => ?_
  exact triple_pure fun disk h => ⟨rfl, h⟩

end Rollback

section Stages

variable (files state graph)

/-- The copies are made and the journal is written. -/
def prepared (wal : Option (DatabaseFile S)) (journal : Option RestoreState) : Disk S G where
  main := some files.mainFile
  wal := wal
  backup := none
  graph := some (.whole files.graph)
  graphBackup := none
  journal := journal
  temp := some ⟨.snapshot, state⟩
  staged := some (.whole graph)
  misread := false

/-- The journal of this restore. -/
def journalOf (phase : RestorePhase) : RestoreState := ⟨phase, true, true⟩

variable (phase : RestorePhase)

def mainBackedUp : Disk S G :=
  { files.prepared state graph none (some (journalOf phase)) with
    main := none, backup := some files.mainFile }

def graphBackedUp : Disk S G :=
  { files.mainBackedUp state graph phase with
    graph := none, graphBackup := some (.whole files.graph) }

def graphInstalled : Disk S G :=
  { files.graphBackedUp state graph phase with graph := some (.whole graph), staged := none }

def mainInstalled : Disk S G :=
  { files.graphInstalled state graph phase with main := some ⟨.snapshot, state⟩, temp := none }

theorem uncommitted_mainBackedUp (hphase : phase ≠ .committed) :
    files.Uncommitted (files.mainBackedUp state graph phase) :=
  ⟨rfl, ⟨phase, hphase, rfl⟩, .inl ⟨⟨_, .inl rfl, rfl⟩, rfl⟩, .inr ⟨rfl, rfl⟩⟩

theorem uncommitted_graphBackedUp (hphase : phase ≠ .committed) :
    files.Uncommitted (files.graphBackedUp state graph phase) :=
  ⟨rfl, ⟨phase, hphase, rfl⟩, .inl ⟨⟨_, .inl rfl, rfl⟩, rfl⟩, .inl rfl⟩

theorem uncommitted_graphInstalled (hphase : phase ≠ .committed) :
    files.Uncommitted (files.graphInstalled state graph phase) :=
  ⟨rfl, ⟨phase, hphase, rfl⟩, .inl ⟨⟨_, .inl rfl, rfl⟩, rfl⟩, .inl rfl⟩

theorem uncommitted_mainInstalled (hphase : phase ≠ .committed) :
    files.Uncommitted (files.mainInstalled state graph phase) :=
  ⟨rfl, ⟨phase, hphase, rfl⟩, .inl ⟨⟨_, .inl rfl, rfl⟩, rfl⟩, .inl rfl⟩

variable {files state graph phase}

theorem uncommitted_prepared {wal : Option (DatabaseFile S)}
    (hwal : wal = none ∨ wal = files.walFile)
    (hphase : phase ≠ .committed) :
    files.Uncommitted (files.prepared state graph wal (some (journalOf phase))) :=
  ⟨rfl, ⟨phase, hphase, rfl⟩, .inr ⟨rfl, hwal.imp (⟨⟨_, .inl rfl, rfl⟩, ·⟩) (⟨rfl, ·⟩)⟩,
    .inr ⟨rfl, rfl⟩⟩

theorem finished_mainInstalled :
    Finished state graph (files.mainInstalled state graph .committed) := by
  refine ⟨rfl, ?_, rfl, rfl, rfl⟩
  intro journal hbook
  exact congrArg RestoreState.phase (Option.some_inj.mp hbook).symm

end Stages

section Parts

/-- How a restore ends: with a disk that can be recovered, and with the restored pair if it
succeeds. -/
def Ends (files : OpenedFiles setup) (state : S) (graph : G) (done : Bool)
    (disk : Disk S G) : Prop :=
  files.Restorable state graph disk ∧
    (done = true → Finished state graph disk ∧ disk.journal = none)

abbrev Completes (files : OpenedFiles setup) (state : S) (graph : G) (before : Disk S G → Prop)
    (program : Prog (Disk S G) Bool) : Prop :=
  files.Keeps state graph before program (files.Ends state graph)

theorem triple_rollback_ends {condition : Disk S G → Prop} (safe : files.Safe state graph)
    (h : ∀ disk, condition disk → files.Restorable state graph disk) :
    files.Completes state graph condition (rollback setup) :=
  ((triple_rollback safe).pre h).post fun _ _ hends =>
    ⟨hends.2, fun hdone => by simp [hends.1] at hdone⟩

theorem triple_compensate (installed backedUp : Bool) :
    files.Keeps state graph (fun disk => files.Uncommitted disk ∧
      (installed = true → disk.graphBackup.isSome))
      (compensate installed backedUp) (fun _ => files.Restorable state graph) := by
  have hmain : files.Keeps state graph (files.Uncommitted ·)
      (do let _ ← backupToMain) (fun _ => files.Restorable state graph) :=
    triple_backupToMain.bind fun _ => triple_pure fun _ h => h.1.restorable
  have hgraph : files.Keeps state graph (files.Uncommitted ·)
      (do
        if backedUp then
          let _ ← backupToGraph
        let _ ← backupToMain)
      (fun _ => files.Restorable state graph) := by
    cases backedUp with
    | false => exact hmain
    | true =>
      refine Triple.bind ?_ fun _ => hmain
      exact ((triple_backupToGraph fun _ => True).pre fun disk h => ⟨h, trivial⟩).post
        fun _ _ h => h.1.1
  unfold compensate
  cases installed with
  | false => exact hgraph.pre fun _ h => h.1
  | true =>
    refine Triple.bind ?_ fun _ => hgraph
    exact ((triple_removeGraph fun _ => True).pre fun disk h => ⟨⟨h.1, trivial⟩, h.2 rfl⟩).post
      fun _ _ h => h.1.1

theorem triple_commitRestore (safe : files.Safe state graph) :
    files.Completes state graph (· = files.mainInstalled state graph .sqliteInstalled)
      (commitRestore setup (journalOf .sqliteInstalled)) := by
  have hstart := files.uncommitted_mainInstalled state graph .sqliteInstalled nofun
  have hwrote : files.Restorable state graph (files.mainInstalled state graph .committed) :=
    finished_mainInstalled.discardable.restorable
  refine triple_writeRestoreState_bind hstart.restorable hwrote ?_ ?_
  · refine ((Finished.triple_recoverRestore.pre ?_).imp (fun _ _ h => h)
      fun _ h => h.discardable.restorable).bind fun done => ?_
    · rintro _ rfl
      exact finished_mainInstalled
    · cases done with
      | true => exact triple_pure fun disk h =>
        ⟨h.1.discardable.restorable, fun _ => ⟨h.1, h.2 rfl⟩⟩
      | false =>
        exact (triple_closeRestorable.pre fun _ h => h.1.discardable.restorable).bind fun _ =>
          triple_rollback_ends safe fun _ h => h
  · refine (triple_closeRestorable.pre ?_).bind fun _ => triple_rollback_ends safe fun _ h => h
    rintro disk (rfl | rfl)
    · exact hstart.restorable
    · exact hwrote

theorem opened_mainInstalled (safe : files.Safe state graph) (phase : RestorePhase) :
    (files.mainInstalled state graph phase).opened setup =
      files.mainInstalled state graph phase := by
  simp [Disk.opened, mainInstalled, graphInstalled, graphBackedUp, mainBackedUp, prepared,
    Disk.walBelongs, Disk.sql, safe.upToDate, safe.graphed]

theorem triple_openRestored (safe : files.Safe state graph) :
    files.Completes state graph (· = files.mainInstalled state graph .sqliteInstalled)
      (openRestored setup (journalOf .sqliteInstalled) true true) := by
  have hstart := files.uncommitted_mainInstalled state graph .sqliteInstalled nofun
  have hopen : files.Keeps state graph (· = files.mainInstalled state graph .sqliteInstalled)
      (openMaterializerPolicy setup)
      (fun _ => (· = files.mainInstalled state graph .sqliteInstalled)) := by
    apply triple_openMaterializerPolicy
    · rintro _ rfl
      exact opened_mainInstalled safe _
    · rintro _ rfl
      rfl
    · exact fun _ h => h ▸ hstart.restorable
  refine hopen.bind fun done => ?_
  cases done with
  | true => exact triple_commitRestore safe
  | false =>
    refine ((triple_removeMain fun backup => backup.isSome).pre ?_).bind fun _ => ?_
    · rintro _ rfl
      exact ⟨hstart, rfl, rfl⟩
    · refine ((triple_compensate true true).pre fun _ h => ⟨h.1, fun _ => h.2.2⟩).bind fun _ => ?_
      exact triple_rollback_ends safe fun _ h => h

/-- The next phase is written from a disk that can be rolled back in both phases. -/
theorem triple_advance (safe : files.Safe state graph) {next : Prog (Disk S G) Bool}
    {disk : Disk S G} {phase : RestorePhase} (hdisk : files.Restorable state graph disk)
    (hwrote : files.Restorable state graph { disk with journal := some (journalOf phase) })
    (hnext : files.Completes state graph
      (· = { disk with journal := some (journalOf phase) }) next) :
    files.Completes state graph (· = disk) (advance setup (journalOf phase) next) := by
  refine triple_fileStep_bind hdisk ?_ (triple_rollback_ends safe fun _ h => h ▸ hdisk)
  refine triple_writeRestoreState_bind hdisk hwrote hnext (triple_rollback_ends safe ?_)
  rintro _ (rfl | rfl)
  · exact hdisk
  · exact hwrote

theorem triple_installMain (safe : files.Safe state graph) :
    files.Completes state graph (· = files.graphInstalled state graph .graphInstalled)
      (installMain setup (journalOf .graphInstalled) true true) := by
  have hstart := files.uncommitted_graphInstalled state graph .graphInstalled nofun
  have hmoved := files.uncommitted_mainInstalled state graph
  refine triple_fileStep_bind hstart.restorable ?_ ?_
  · exact triple_advance safe (hmoved .graphInstalled nofun).restorable
      (hmoved .sqliteInstalled nofun).restorable (triple_openRestored safe)
  · refine ((triple_compensate true true).pre ?_).bind fun _ => ?_
    · rintro _ rfl
      exact ⟨hstart, fun _ => rfl⟩
    · exact triple_rollback_ends safe fun _ h => h

theorem triple_installGraph (safe : files.Safe state graph) :
    files.Completes state graph (· = files.mainBackedUp state graph .sqliteBackedUp)
      (installGraph setup (journalOf .sqliteBackedUp)) := by
  have hcompensate : ∀ disk backedUp, files.Uncommitted disk →
      files.Completes state graph (· = disk) (do compensate false backedUp; rollback setup) := by
    intro disk backedUp hdisk
    refine ((triple_compensate false backedUp).pre ?_).bind fun _ => ?_
    · rintro _ rfl
      exact ⟨hdisk, nofun⟩
    · exact triple_rollback_ends safe fun _ h => h
  have hstart := files.uncommitted_mainBackedUp state graph .sqliteBackedUp nofun
  have hmoved := files.uncommitted_graphBackedUp state graph .sqliteBackedUp nofun
  have hlaid := files.uncommitted_graphInstalled state graph
  refine triple_fileStep_bind hstart.restorable ?_ (hcompensate _ _ hstart)
  refine triple_fileStep_bind hmoved.restorable ?_ (hcompensate _ _ hmoved)
  exact triple_advance safe (hlaid .sqliteBackedUp nofun).restorable
    (hlaid .graphInstalled nofun).restorable (triple_installMain safe)

theorem triple_backUpMain (safe : files.Safe state graph) :
    files.Completes state graph (· = files.prepared state graph none (some (journalOf .prepared)))
      (backUpMain setup (journalOf .prepared)) := by
  have hstart : files.Restorable state graph
      (files.prepared state graph none (some (journalOf .prepared))) :=
    .inl (uncommitted_prepared (.inl rfl) nofun)
  refine triple_fileStep_bind hstart ?_ (triple_rollback_ends safe fun _ h => h ▸ hstart)
  have hmoved := files.uncommitted_mainBackedUp state graph
  exact triple_advance safe (hmoved .prepared nofun).restorable
    (hmoved .sqliteBackedUp nofun).restorable (triple_installGraph safe)

theorem triple_removeSidecars (safe : files.Safe state graph) :
    files.Completes state graph
      (· = files.prepared state graph files.walFile (some (journalOf .prepared)))
      (removeSidecars setup (journalOf .prepared)) := by
  have hstart : files.Restorable state graph
      (files.prepared state graph files.walFile (some (journalOf .prepared))) :=
    .inl (uncommitted_prepared (.inr rfl) (by simp))
  have hremoved : files.Restorable state graph
      (files.prepared state graph none (some (journalOf .prepared))) :=
    .inl (uncommitted_prepared (.inl rfl) (by simp))
  refine triple_fileStep_bind hstart ?_ (triple_rollback_ends safe fun _ h => h ▸ hstart)
  cases files.walFile with
  | none | some wal =>
    exact triple_fileStep_bind hremoved (triple_backUpMain safe)
      (triple_rollback_ends safe fun _ h => h ▸ hremoved)

end Parts

end OpenedFiles

end Rhiza.Materializer
