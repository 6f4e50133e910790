import Rhiza.Materializer.RestoreSteps

/-! # A restore is all or nothing

After a restore that failed or crashed anywhere, and any number of recoveries that did so as well,
the recovery that returns nil leaves the pair from before the call or the restored one. This needs
the write-ahead log to be folded before the call: the restore removes it, while the backup is the
main file alone. A database that is created or upgraded before the commit leaves a log behind as
well, which the recovery then puts beside the original.
-/

namespace Rhiza.Materializer

open Foundations Foundations.Prog

universe u v

variable {S : Type u} {G : Type v}

/-- So many recoveries, each of which may fail or crash. -/
def recoveries : ℕ → World (Disk S G) → World (Disk S G)
  | 0, world => world
  | count + 1, world => recoveries count (recoverRestore world).2

theorem recoveries_keeps {keep : Disk S G → Prop}
    (hkeep : Triple keep recoverRestore (fun _ => keep) keep) (count : ℕ) :
    ∀ world : World (Disk S G), keep world.state → keep (recoveries count world).state := by
  induction count with
  | zero => exact fun world hworld => hworld
  | succ count ih => exact fun world hworld => ih _ (hkeep.leaves (fun _ _ h => h) hworld)

namespace OpenedFiles

variable {setup : Setup S G} (files : OpenedFiles setup) (state : S) (graph : G)

/-- The call, with these outcomes of its steps. -/
def restoring (outcomes : List Outcome) : Option Bool × World (Disk S G) :=
  restoreCheckpoint setup files.readerOpen ⟨state, setup.stored graph⟩ ⟨files.disk, outcomes⟩

/-- Whatever becomes of the steps of the call and of the recoveries after it, one that returns nil
leaves one of the two pairs, SQLite has read no foreign log and finds none, and if the call returned
nil it is the restored pair. -/
def AllOrNothing : Prop :=
  ∀ outcomes count,
    let call := files.restoring state graph outcomes
    let last := recoverRestore (recoveries count call.2)
    let disk := last.2.state
    last.1 = some true →
      files.Acceptable state graph (disk.sql, disk.graph) ∧
      disk.misread = false ∧ disk.walBelongs = true ∧
      (call.1 = some true → (disk.sql, disk.graph) = restored setup state graph)

/-- A backup of an earlier restore is left, and the call refuses. -/
def Refused : Prop := files.backup.isSome ∨ files.graphBackup.isSome

variable {files state graph}

theorem allOrNothing_of (kept finished : Disk S G → Prop)
    (hcall : Triple (· = files.disk)
      (restoreCheckpoint setup files.readerOpen ⟨state, setup.stored graph⟩)
      (fun done disk => kept disk ∧ (done = true → finished disk)) kept)
    (hheal : Triple kept recoverRestore
      (fun done disk => kept disk ∧ (done = true →
        files.Acceptable state graph (disk.sql, disk.graph) ∧ disk.misread = false ∧
          disk.walBelongs = true)) kept)
    (hfind : Triple finished recoverRestore (fun _ => finished) finished)
    (hpair : ∀ disk, finished disk → (disk.sql, disk.graph) = restored setup state graph) :
    files.AllOrNothing state graph := by
  intro outcomes count call last disk hlast
  have hkeep : Triple kept (recoverRestore : Prog (Disk S G) Bool) (fun _ => kept) kept :=
    hheal.post fun _ _ h => h.1
  have hleft : kept call.2.state := hcall.leaves (fun _ _ h => h.1) rfl
  have hreach : kept (recoveries count call.2).state := recoveries_keeps hkeep count _ hleft
  obtain ⟨hacceptable, hmisread, hbelongs⟩ := (hheal.returns hreach hlast).2 rfl
  refine ⟨hacceptable, hmisread, hbelongs, fun hnil => hpair disk ?_⟩
  have hdone : finished call.2.state := (hcall.returns rfl hnil).2 rfl
  exact hfind.leaves (fun _ _ h => h) (recoveries_keeps hfind count _ hdone)

section Call

/-- What does not depend on the copies survives their removal. -/
theorem triple_restoreCheckpoint {ends : Bool → Disk S G → Prop} {crash : Disk S G → Prop}
    {start : Disk S G → Prop} {readerOpen : Bool} {parts : SnapshotParts S G}
    (hparts : Triple start (restoreParts setup readerOpen parts) ends crash)
    (hcrash : ∀ done disk, ends done disk → crash disk)
    (htemp : ∀ done disk temp, ends done disk → ends done { disk with temp := temp })
    (hstaged : ∀ done disk staged, ends done disk → ends done { disk with staged := staged }) :
    Triple start (restoreCheckpoint setup readerOpen parts) ends crash := by
  refine hparts.bind fun done => ?_
  have hremoveTemp : Triple (ends done) removeTemp (fun _ => ends done) crash :=
    triple_fileStep_keep (fun disk h => htemp done disk none h) (hcrash done)
  have hremoveStaged : Triple (ends done) removeStaged (fun _ => ends done) crash := by
    apply triple_act
    · exact fun disk h => hstaged done disk none h
    · exact fun disk h => ⟨h, hstaged done disk _ h⟩
    · exact fun disk h => ⟨hcrash done disk h, hcrash done _ (hstaged done disk _ h)⟩
  refine hremoveTemp.bind fun _ => hremoveStaged.bind fun _ => ?_
  exact triple_pure fun _ h => h

variable {disk : Disk S G} {temp : Option (DatabaseFile S)} {staged : Option (GraphDir G)}

/-- The copies say nothing about what can be recovered. -/
theorem Restorable.of_copies
    (h : files.Restorable state graph disk) :
    files.Restorable state graph { disk with temp := temp, staged := staged } := by
  cases h with
  | inl uncommitted => exact .inl { uncommitted with }
  | inr discardable => exact .inr { discardable with }

theorem Finished.of_copies
    (h : Finished state graph disk) :
    Finished state graph { disk with temp := temp, staged := staged } :=
  { h with }

/-- The files before the journal is written. -/
theorem restorable_of_untouched (hmain : disk.main = some files.mainFile)
    (hwal : disk.wal = files.walFile) (hgraph : disk.graph = some (.whole files.graph))
    (hbook : disk.journal = none) (hmisread : disk.misread = false) :
    files.Restorable state graph disk := by
  refine .inr ⟨hmisread, .inl ⟨?_, .inr ⟨hmain, hwal⟩, hgraph, fun hsome => absurd hbook hsome⟩⟩
  rw [hbook]
  exact nofun

theorem triple_restoreParts (safe : files.Safe state graph) (hspare : files.backup = none)
    (htwin : files.graphBackup = none) :
    files.Completes state graph (· = files.disk)
      (restoreParts setup files.readerOpen ⟨state, setup.stored graph⟩) := by
  have hdisk : files.disk =
      { files.prepared state graph files.walFile none with temp := none, staged := none } := by
    unfold disk
    rw [hspare, htwin, safe.stored]
    rfl
  have hstart : files.Restorable state graph (files.prepared state graph files.walFile none) :=
    restorable_of_untouched rfl rfl rfl rfl rfl
  have hwrote : files.Restorable state graph
      (files.prepared state graph files.walFile (some (journalOf .prepared))) :=
    .inl (uncommitted_prepared (.inr rfl) nofun)
  have hstop : ∀ condition : Disk S G → Prop,
      (∀ disk, condition disk → files.Restorable state graph disk) →
      files.Completes state graph condition (pure false) :=
    fun _ h => triple_pure fun disk hdisk => ⟨h disk hdisk, nofun⟩
  have hrefuse : files.Completes state graph (· = files.prepared state graph files.walFile none)
      (pure false) :=
    hstop _ fun _ h => h ▸ hstart
  rw [hdisk, safe.stored]
  refine triple_fileStep_bind hstart.of_copies ?_ (hstop _ fun _ h => h ▸ hstart.of_copies)
  refine triple_fileStep_bind hstart ?_ hrefuse
  refine triple_fileStep_bind hstart ?_ hrefuse
  refine triple_fileStep_bind hstart ?_ hrefuse
  refine triple_writeRestoreState_bind hstart hwrote ?_ (hstop _ ?_)
  · have hfolded : files.Completes state graph (· = files.foldedFiles.prepared state graph none
        (some (journalOf .prepared))) (removeSidecars setup (journalOf .prepared)) :=
      (triple_removeSidecars safe.folded).imp (fun _ _ h => ⟨h.1.of_folded, h.2⟩)
        fun _ h => h.of_folded
    have hclosed : ∀ disk : Disk S G, (disk = files.prepared state graph files.walFile
        (some (journalOf .prepared)) ∨ disk = files.foldedFiles.prepared state graph none
          (some (journalOf .prepared))) → files.Restorable state graph disk := by
      rintro _ (rfl | rfl)
      · exact hwrote
      · exact Restorable.of_folded (.inl (uncommitted_prepared (.inl rfl) nofun))
    refine ((triple_closeConnections files.readerOpen ?_ hclosed).pre fun _ h => .inl h).bind
      fun _ world h => h.elim (triple_removeSidecars safe world) (hfolded world)
    rintro _ (rfl | rfl)
    · cases hlog : files.wal with
      | none => exact .inl (by simp [Disk.folded, prepared, walFile, hlog])
      | some => exact .inr (by simp [Disk.folded, prepared, walFile, hlog, mainFile, foldedFiles])
    · exact .inr rfl
  · rintro _ (rfl | rfl)
    · exact hstart
    · exact hwrote

end Call

theorem Finished.restored_pair {disk : Disk S G} (safe : files.Safe state graph)
    (h : Finished state graph disk) : (disk.sql, disk.graph) = restored setup state graph := by
  obtain ⟨hmain, hwal, hgraph⟩ := h.installed
  simp [Disk.sql, hmain, hwal, hgraph, restored, safe.upToDate, safe.stored]

theorem Safe.allOrNothing (safe : files.Safe state graph) (hspare : files.backup = none)
    (htwin : files.graphBackup = none) : files.AllOrNothing state graph := by
  have hcall : files.Completes state graph (· = files.disk)
      (restoreCheckpoint setup files.readerOpen ⟨state, setup.stored graph⟩) := by
    refine triple_restoreCheckpoint (triple_restoreParts safe hspare htwin) ?_ ?_ ?_
    · exact fun _ _ h => h.1
    · exact fun _ _ _ h => ⟨h.1.of_copies, fun hdone => ⟨(h.2 hdone).1.of_copies, (h.2 hdone).2⟩⟩
    · exact fun _ _ _ h => ⟨h.1.of_copies, fun hdone => ⟨(h.2 hdone).1.of_copies, (h.2 hdone).2⟩⟩
  refine allOrNothing_of (files.Restorable state graph) (Finished state graph)
    (hcall.post fun _ _ h => ⟨h.1, fun hdone => (h.2 hdone).1⟩) ?_ ?_ ?_
  · refine triple_recoverRestore.post fun _ _ h => ⟨h.1, fun hdone => ?_⟩
    have hset := (h.2 hdone).1
    exact ⟨(hset.acceptable safe).1, hset.misread, (hset.acceptable safe).2⟩
  · exact Finished.triple_recoverRestore.post fun _ _ h => h.1
  · exact fun _ h => h.restored_pair safe

section Refused

/-- A call that is refused leaves the files as they are. -/
structure Untouched (files : OpenedFiles setup) (disk : Disk S G) : Prop where
  main : disk.main = some files.mainFile
  wal : disk.wal = files.walFile
  graph : disk.graph = (setup.stored files.graph).map .whole
  journal : disk.journal = none
  misread : disk.misread = false
  backup : disk.backup = files.backup
  graphBackup : disk.graphBackup = files.graphBackup

theorem Untouched.pair {disk : Disk S G} (h : files.Untouched disk) :
    (disk.sql, disk.graph) = files.before ∧ disk.walBelongs = true := by
  cases hwal : files.wal with
  | none =>
    have hnone : disk.wal = none := by rw [h.wal, walFile, hwal]; rfl
    simp [Disk.sql, Disk.walBelongs, h.main, hnone, h.graph, before, hwal, mainFile]
  | some log =>
    have hsome : disk.wal = some ⟨.original, log⟩ := by rw [h.wal, walFile, hwal]; rfl
    simp [Disk.sql, Disk.walBelongs, h.main, hsome, h.graph, before, hwal, mainFile]

theorem Untouched.triple_recoverRestore :
    Triple files.Untouched (recoverRestore : Prog (Disk S G) Bool) (fun _ => files.Untouched)
      files.Untouched := by
  have hread : Triple files.Untouched (readRestoreState : Prog (Disk S G) JournalRead)
      (fun result disk => files.Untouched disk ∧ ∀ journal, result ≠ .found journal)
      files.Untouched := by
    apply triple_atomic
    · intro disk h
      refine ⟨h, fun journal => ?_⟩
      simp [h.journal]
    · exact fun _ h => ⟨h, nofun⟩
    · exact fun _ h => h
  refine hread.bind fun result => ?_
  cases result with
  | missing | failed => exact triple_pure fun _ h => h.1
  | found journal => exact fun world h => absurd rfl (h.2 journal)

theorem triple_restoreParts_refused (refused : files.Refused) :
    Triple (· = files.disk) (restoreParts setup files.readerOpen ⟨state, setup.stored graph⟩)
      (fun done disk => done = false ∧ files.Untouched disk) files.Untouched := by
  have hstop : Triple files.Untouched (pure false : Prog (Disk S G) Bool)
      (fun done disk => done = false ∧ files.Untouched disk) files.Untouched :=
    triple_pure fun _ h => ⟨rfl, h⟩
  have hstart : files.Untouched files.disk := ⟨rfl, rfl, rfl, rfl, rfl, rfl, rfl⟩
  have hstage : Triple (· = files.disk) (stageParts ⟨state, setup.stored graph⟩)
      (fun _ => files.Untouched)
      files.Untouched := by
    unfold stageParts fileStep
    apply triple_atomic
    · rintro _ rfl
      exact { hstart with }
    · exact fun _ h => h ▸ hstart
    · exact fun _ h => h ▸ hstart
  refine hstage.bind fun result => ?_
  cases result with
  | missing | failed => exact hstop
  | ok =>
    refine (triple_stat Disk.backup fun _ h => h).bind fun result => ?_
    cases result with
    | ok | failed => exact hstop.pre fun _ h => h.1
    | missing =>
      -- Without a backup of the database it is the graph's that makes the call refuse.
      refine Triple.pre (triple_of_fact fun hmain : files.backup = none => ?_) fun _ h =>
        ⟨h.1, h.1.backup ▸ h.2.2 rfl⟩
      refine (triple_stat Disk.graphBackup fun _ h => h).bind fun result => ?_
      cases result with
      | ok | failed => exact hstop.pre fun _ h => h.1
      | missing =>
        intro world h
        simp [Refused, hmain, ← h.1.graphBackup, h.2.2 rfl] at refused

theorem Refused.allOrNothing (refused : files.Refused) : files.AllOrNothing state graph := by
  have hcall : Triple (· = files.disk)
      (restoreCheckpoint setup files.readerOpen ⟨state, setup.stored graph⟩)
      (fun done disk => done = false ∧ files.Untouched disk) files.Untouched := by
    refine triple_restoreCheckpoint (triple_restoreParts_refused refused) ?_ ?_ ?_
    · exact fun _ _ h => h.2
    · exact fun _ _ _ h => ⟨h.1, { h.2 with }⟩
    · exact fun _ _ _ h => ⟨h.1, { h.2 with }⟩
  refine allOrNothing_of files.Untouched (fun _ => False)
    (hcall.post fun done _ h => ⟨h.2, fun hdone => ?_⟩) ?_
      (fun _ h => h.elim) fun _ h => h.elim
  · rw [h.1] at hdone
    cases hdone
  · refine Untouched.triple_recoverRestore.post fun _ _ h => ⟨h, fun _ => ?_⟩
    exact ⟨.inl h.pair.1, h.misread, h.pair.2⟩

end Refused

section Necessary

/-- So many steps are done, and then the outcome is this one. -/
def after (count : ℕ) (outcome : Outcome) : List Outcome :=
  List.replicate count .done ++ [outcome]

section Alone

variable (h : files.AllOrNothing state graph) (hbackup : files.backup = none)
  (hgraphBackup : files.graphBackup = none)
include h hbackup hgraphBackup

/-- If the log is not folded when the connections are closed, a crash after it is removed and before
the original is backed up leaves the main file alone. -/
theorem AllOrNothing.alone (hgraphed : setup.graphed = true) :
    files.Acceptable state graph (some files.main, some (.whole files.graph)) := by
  have hlast := h (after 6 (.failed false) ++ after 1 (.crashed false)) 0
  obtain ⟨upgrade, blank, blankGraph, managed, graphed, _⟩ := setup
  obtain ⟨main, wal, original, backup, graphBackup, readerOpen, current⟩ := files
  dsimp only at hbackup hgraphBackup hgraphed
  subst hbackup hgraphBackup hgraphed
  cases wal with
  | none | some => exact (hlast rfl).1

/-- A checkpoint that is upgraded when it is opened leaves its log beside the original, if the call
crashes before it commits. -/
theorem AllOrNothing.upToDate (hgraphed : setup.graphed = true) : setup.upgrade state = none := by
  by_contra hupgrade
  obtain ⟨upgraded, hupgraded⟩ := Option.ne_none_iff_exists'.mp hupgrade
  have hopened : (files.mainInstalled state graph .sqliteInstalled).opened setup =
      { files.mainInstalled state graph .sqliteInstalled with
        wal := some ⟨.snapshot, upgraded⟩ } := by
    simp [Disk.opened, mainInstalled, graphInstalled, graphBackedUp, mainBackedUp, prepared,
      Disk.walBelongs, Disk.sql, hupgraded, hgraphed]
  have hcall : files.restoring state graph (after 6 (.failed false) ++ after 16 (.crashed false)) =
      (none, ⟨(files.mainInstalled state graph .sqliteInstalled).opened setup,
        []⟩) := by
    obtain ⟨upgrade, blank, blankGraph, managed, graphed, _⟩ := setup
    obtain ⟨main, wal, original, backup, graphBackup, readerOpen, current⟩ := files
    dsimp only at hbackup hgraphBackup hgraphed
    subst hbackup hgraphBackup hgraphed
    cases wal with
    | none | some => rfl
  have hlast := h (after 6 (.failed false) ++ after 16 (.crashed false)) 0
  rw [hcall, hopened] at hlast
  have hbelongs := (hlast rfl).2.2.1
  cases hbelongs

/-- A managed materializer that fails to put the original back opens a new database in its place,
and leaves the log of that one beside the original. -/
theorem AllOrNothing.unmanaged : setup.managed = false := by
  by_contra hmanaged
  rw [Bool.not_eq_false] at hmanaged
  have hlast := h (after 6 (.failed false) ++ after 3 (.failed false) ++ after 3 (.failed false)) 0
  obtain ⟨upgrade, blank, blankGraph, managed, graphed, _⟩ := setup
  obtain ⟨main, wal, original, backup, graphBackup, readerOpen, current⟩ := files
  dsimp only at hbackup hgraphBackup hmanaged
  subst hbackup hgraphBackup hmanaged
  cases graphed with
  | false | true =>
    cases wal with
    | none | some => exact Bool.false_ne_true (hlast rfl).2.2.1

end Alone

end Necessary

/-- A database whose last commits are in the log alone. -/
def unfolded : OpenedFiles (⟨fun _ => none, 0, 0, false, true, fun _ => rfl⟩ : Setup ℕ ℕ) where
  main := 1
  wal := some 2
  graph := 2
  backup := none
  graphBackup := none
  readerOpen := true
  current := rfl

end OpenedFiles

end Rhiza.Materializer
