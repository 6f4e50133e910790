import Rhiza.QuePaxa.Fence
import Rhiza.QuePaxa.Durability
import Rhiza.QuePaxa.Rooted

/-! # The prepared fence over the life of a log

What a replica has prepared either stands above the floor, with a synced marker and a
fence in memory that is not below it, or has sunk to the floor. Votes at the floor are
the only ones that neither the fence nor the retained prefix guards after a restart.
-/

namespace Rhiza.QuePaxa

open Foundations

/-- A seal has an index. -/
theorem Codec.decodeCheckpointSeal_pos (codec : Codec) {value : Bytes} {checkpoint : CheckpointSeal}
    (hgot : codec.decodeCheckpointSeal value =
      .ok (some checkpoint)) : 0 < checkpoint.index := by
  unfold decodeCheckpointSeal at hgot
  split at hgot
  · split at hgot
    · cases hgot
    · split at hgot
      · cases hgot
      next hvalid =>
        cases hgot
        simp only [not_or] at hvalid
        exact Nat.pos_of_ne_zero hvalid.2.1
  · cases hgot

namespace Core

variable {codec : Codec} {core next : Core} {new : ℕ × ValueHash}

/-- One turn of the search for the newest prepared checkpoint. -/
def newerPrepared (latest : Option (ℕ × ValueHash)) (entry : Σ _ : ℕ, ValueHash) :
    Option (ℕ × ValueHash) :=
  match latest with
  | none => if 0 < entry.1 then some (entry.1, entry.2) else none
  | some old => if old.1 < entry.1 then some (entry.1, entry.2) else some old

theorem le_newerPrepared (old : ℕ × ValueHash) (entry : Σ _ : ℕ, ValueHash) :
    ∃ new, newerPrepared (some old) entry = some new ∧ old.1 ≤ new.1 := by
  unfold newerPrepared
  by_cases hlt : old.1 < entry.1
  · exact ⟨(entry.1, entry.2), by simp [hlt], Nat.le_of_lt hlt⟩
  · exact ⟨old, by simp [hlt], Nat.le_refl _⟩

theorem entry_le_newerPrepared (latest : Option (ℕ × ValueHash)) {entry : Σ _ : ℕ, ValueHash}
    (hpos : 0 < entry.1) : ∃ new, newerPrepared latest entry = some new ∧ entry.1 ≤ new.1 := by
  cases latest with
  | none => exact ⟨(entry.1, entry.2), by simp [newerPrepared, hpos], Nat.le_refl _⟩
  | some old =>
    by_cases hlt : old.1 < entry.1
    · exact ⟨(entry.1, entry.2), by simp [newerPrepared, hlt], Nat.le_refl _⟩
    · exact ⟨old, by simp [newerPrepared, hlt], Nat.le_of_not_lt hlt⟩

theorem newerPrepared_source {latest : Option (ℕ × ValueHash)} {entry : Σ _ : ℕ, ValueHash}
    (hnew : newerPrepared latest entry = some new) :
    latest = some new ∨ entry = ⟨new.1, new.2⟩ := by
  cases latest with
  | none =>
    by_cases hpos : 0 < entry.1
    · right
      simp only [newerPrepared, hpos, if_true, Option.some_inj] at hnew
      rw [← hnew]
    · simp [newerPrepared, hpos] at hnew
  | some old =>
    by_cases hlt : old.1 < entry.1
    · right
      simp only [newerPrepared, hlt, if_true, Option.some_inj] at hnew
      rw [← hnew]
    · left
      simpa [newerPrepared, hlt] using hnew

theorem le_foldl_newerPrepared (entries : List (Σ _ : ℕ, ValueHash)) (old : ℕ × ValueHash) :
    ∃ new, entries.foldl newerPrepared (some old) = some new ∧ old.1 ≤ new.1 := by
  induction entries generalizing old with
  | nil => exact ⟨old, rfl, Nat.le_refl _⟩
  | cons entry rest ih =>
    obtain ⟨middle, hmid, hle⟩ := le_newerPrepared old entry
    obtain ⟨new, hnew, hle'⟩ := ih middle
    exact ⟨new, by rw [List.foldl_cons, hmid, hnew], hle.trans hle'⟩

theorem entry_le_foldl_newerPrepared {entries : List (Σ _ : ℕ, ValueHash)}
    {entry : Σ _ : ℕ, ValueHash} (hentry : entry ∈ entries) (hpos : 0 < entry.1)
    (start : Option (ℕ × ValueHash)) :
    ∃ new, entries.foldl newerPrepared start = some new ∧ entry.1 ≤ new.1 := by
  induction entries generalizing start with
  | nil => cases hentry
  | cons head rest ih =>
    rcases List.mem_cons.mp hentry with rfl | hentry
    · obtain ⟨middle, hmid, hle⟩ := entry_le_newerPrepared start hpos
      obtain ⟨new, hnew, hle'⟩ := le_foldl_newerPrepared rest middle
      exact ⟨new, by rw [List.foldl_cons, hmid, hnew], hle.trans hle'⟩
    · exact ih hentry _

theorem foldl_newerPrepared_source {entries : List (Σ _ : ℕ, ValueHash)}
    {start : Option (ℕ × ValueHash)} (hnew : entries.foldl newerPrepared start = some new) :
    start = some new ∨ ⟨new.1, new.2⟩ ∈ entries := by
  induction entries generalizing start with
  | nil => exact .inl hnew
  | cons entry rest ih =>
    rcases ih hnew with hmid | hmem
    · rcases newerPrepared_source hmid with hstart | rfl
      · exact .inl hstart
      · exact .inr List.mem_cons_self
    · exact .inr (List.mem_cons_of_mem _ hmem)

variable {root : ValueHash} {index : ℕ} {checkpoint : CheckpointSeal}

theorem lookup_latestPrepared
    (hlate : core.latestPreparedCheckpoint = some (index, root)) :
    core.preparedCheckpoints.lookup index = some root := by
  rcases foldl_newerPrepared_source hlate with hnone | hmem
  · cases hnone
  · exact AList.mem_lookup_iff.mpr hmem

theorem exists_latestPrepared
    (hprep : core.preparedCheckpoints.lookup index = some root) (hpos : 0 < index) :
    ∃ later root', core.latestPreparedCheckpoint = some (later, root') ∧ index ≤ later ∧
      core.preparedCheckpoints.lookup later = some root' := by
  obtain ⟨⟨later, root'⟩, hlate, hle⟩ :=
    entry_le_foldl_newerPrepared (AList.mem_lookup_iff.mp hprep) hpos none
  exact ⟨later, root', hlate, hle, lookup_latestPrepared hlate⟩

/-- A seal that passes the fence is not below anything prepared. -/
theorem checkCheckpointFence_spec
    (hfence : core.checkCheckpointFence checkpoint = .ok ())
    (hprep : core.preparedCheckpoints.lookup index = some root) (hpos : 0 < index) :
    index ≤ checkpoint.index ∧ (index = checkpoint.index → root = checkpoint.rootHash) := by
  obtain ⟨later, root', hlate, hle, hlater⟩ := exists_latestPrepared hprep hpos
  simp only [checkCheckpointFence, hlate, seq_eq_ok, require_eq_ok] at hfence
  obtain ⟨hbound, hroot⟩ := hfence
  refine ⟨hle.trans hbound, fun heq => ?_⟩
  obtain rfl : index = later := Nat.le_antisymm hle (heq ▸ hbound)
  rw [hprep] at hlater
  cases hlater
  exact hroot heq.symm

/-- The log carries a marker for the root at the index. -/
def MarkedAt (entries : List Entry) (index : ℕ) (root : ValueHash) : Prop :=
  ∃ checkpoint, .checkpointVerified checkpoint ∈ entries ∧ checkpoint.index = index ∧
    checkpoint.rootHash = root

theorem MarkedAt.mono {entries entries' : List Entry}
    (hnote : MarkedAt entries index root) (hsub : entries ⊆ entries') :
    MarkedAt entries' index root := by
  obtain ⟨checkpoint, hmem, hindex, hroot⟩ := hnote
  exact ⟨checkpoint, hsub hmem, hindex, hroot⟩

/-- The checkpoint is behind the floor, or is the floor. -/
def Sunk (core : Core) (index : ℕ) (root : ValueHash) : Prop :=
  index < core.floor ∨ 0 < index ∧ index = core.floor ∧ root = core.floorRoot

/-- A checkpoint from the floor on that the fence stands for. -/
structure Standing (core : Core) (index : ℕ) (root : ValueHash) : Prop where
  above : core.floor ≤ index
  positive : 0 < index
  within : index ≤ core.tip
  covered : ∃ later root', core.preparedCheckpoints.lookup later = some root' ∧ index ≤ later
  agrees : ∀ root', core.preparedCheckpoints.lookup index = some root' → root' = root
  yields : ∀ later prepared, core.pendingPrepares.lookup later = some prepared →
    index ≤ later ∧ (later = index → prepared.root = root)

/-- A marker of the log is behind the floor, waits to be known durable, or is fenced. -/
def Watched (core : Core) (index : ℕ) (root : ValueHash) : Prop :=
  core.Sunk index root ∨
    (∃ prepared, core.pendingPrepares.lookup index = some prepared ∧ prepared.root = root) ∨
    core.Standing index root

/-- A candidate whose marker is not known to be durable. -/
structure Candidate (core : Core) (index : ℕ) (root : ValueHash) : Prop where
  above : core.floor ≤ index
  positive : 0 < index
  within : index ≤ core.tip
  logged : MarkedAt core.wal.entries index root
  passed : ∀ earlier root', core.preparedCheckpoints.lookup earlier = some root' →
    earlier ≤ index ∧ (earlier = index → root' = root)

/-- What the fence rests on. -/
structure Fencing where
  floor : ℕ
  floorRoot : ValueHash
  preparedCheckpoints : Table ℕ ValueHash
  pendingPrepares : Table ℕ PendingCheckpointPrepare

def fencing (core : Core) : Fencing :=
  ⟨core.floor, core.floorRoot, core.preparedCheckpoints, core.pendingPrepares⟩

theorem Marks.fencing_eq (hmarks : core.Marks next) : next.fencing = core.fencing := by
  obtain ⟨_, -, rfl⟩ := hmarks
  rfl

theorem Climbs.fencing_eq (hup : core.Climbs codec next) : next.fencing = core.fencing := by
  obtain ⟨_, _, _, _, _, _, _, rfl⟩ := hup.advances
  rfl

theorem stageValueLocked_fencing {hash : ValueHash} {value : Bytes}
    (hstage : core.stageValueLocked hash value = .ok next) : next.fencing = core.fencing := by
  rcases stageValueLocked_cases hstage with ⟨-, -, rfl⟩ | ⟨-, rfl⟩ | ⟨-, rfl⟩ <;> rfl

/-- The root of a compaction is the one prepared at its floor. -/
theorem compactBegin_prepared {through : ℕ} {recoveryRoot : ValueHash} {running : RunningCompaction}
    (hbegin : core.compactBegin codec through recoveryRoot = .ok (next, running)) :
    core.preparedCheckpoints.lookup running.base.closedThrough =
      some running.base.recoveryRoot := by
  obtain ⟨-, -, -, ⟨checkpoint, hseal⟩, -, -, hbase, hroot, -⟩ := compactBegin_eq_ok hbegin
  rw [hbase, hroot]
  unfold sealedCheckpoint at hseal
  split at hseal
  · cases hseal
  · exact (require_eq_ok.mp (seq_eq_ok.mp hseal).1).2

/-- What a preparation checks, and what it leaves. -/
structure Prepares (core next : Core) (checkpoint : CheckpointSeal)
    (prepared : PendingCheckpointPrepare) : Prop where
  root_eq : prepared.root = checkpoint.rootHash
  positive : 0 < checkpoint.index
  retained : (core.prefixes.lookup checkpoint.index).isSome
  within : checkpoint.index ≤ core.tip
  fence : core.checkCheckpointFence checkpoint = .ok ()
  fresh : core.latestPreparedCheckpoint ≠ some (checkpoint.index, checkpoint.rootHash)
  idle : ∀ index, core.pendingPrepares.lookup index = none
  marked : .checkpointVerified checkpoint ∈ next.wal.entries
  fencing_eq : next.fencing = ⟨core.floor, core.floorRoot, core.preparedCheckpoints,
    core.pendingPrepares.insert checkpoint.index prepared⟩

/-- The new marker is the only pending one. -/
theorem Prepares.only {prepared pending : PendingCheckpointPrepare}
    (hpreps : core.Prepares next checkpoint prepared)
    (hget : next.pendingPrepares.lookup index = some pending) :
    index = checkpoint.index ∧ pending = prepared := by
  obtain ⟨-, -, -, hpend⟩ := Fencing.mk.inj hpreps.fencing_eq
  rw [hpend] at hget
  rcases Table.of_lookup_insert hget with ⟨heq, hsame⟩ | hold
  · exact ⟨heq, hsame.symm⟩
  · rw [hpreps.idle] at hold
    cases hold

theorem prepareAppend_prepares {payload : Bytes} {prepared : PendingCheckpointPrepare}
    (hmade : core.prepareAppend codec checkpoint payload
      (core.checkPrepare codec checkpoint payload).toOption.isSome = .ok (next, prepared)) :
    core.Prepares next checkpoint prepared := by
  obtain ⟨middle, hmarks, hroot, hnext⟩ := prepareAppend_eq_ok hmade
  simp only [prepareAppend, seq_eq_ok, require_eq_ok] at hmade
  obtain ⟨hdecode, hapt, hempty, -⟩ := hmade
  obtain ⟨⟨⟩, hcheck⟩ := Option.isSome_iff_exists.mp hapt
  have hcheck := toOption_eq_some.mp hcheck
  simp only [checkPrepare, checkCheckpointIdentity, seq_eq_ok, require_eq_ok] at hcheck
  obtain ⟨hfresh, ⟨-, ⟨-, -, hhead, hwith, -⟩, -⟩, hfence, -⟩ := hcheck
  refine ⟨hroot, codec.decodeCheckpointSeal_pos hdecode, by simp [hhead], hwith, hfence, hfresh,
    ?_, ?_, ?_⟩
  · intro index
    rw [AList.lookup_eq_none, AList.mem_keys, hempty]
    exact List.not_mem_nil
  · rw [hnext, WAL.entries_append]
    exact List.mem_append_right _ List.mem_cons_self
  · obtain ⟨_, -, rfl⟩ := hmarks
    rw [hnext]
    rfl

theorem recordApply_fencing {request : RecordRequest} {eligible : Bool} {summary : Summary}
    {completion : Completion}
    (hjot : core.recordApply codec request eligible = .ok (next, summary, completion)) :
    next.fencing = core.fencing := by
  rcases (recordApply_cases hjot).2 with ⟨decided, hdec, hsay⟩ | ⟨-, -, -, hsay⟩
  · exact (answerDecided_spec hdec hsay).1.fencing_eq
  · cases hsay
    rfl

variable {index : ℕ} {root : ValueHash}

theorem Sunk.congr (hsunk : core.Sunk index root) (hfloor : next.floor = core.floor)
    (hroot : next.floorRoot = core.floorRoot) : next.Sunk index root := by
  unfold Sunk
  rw [hfloor, hroot]
  exact hsunk

theorem Sunk.of_fencing (hsunk : core.Sunk index root) (hwall : next.fencing = core.fencing) :
    next.Sunk index root :=
  hsunk.congr (congrArg Fencing.floor hwall) (congrArg Fencing.floorRoot hwall)

theorem Sunk.of_lt (hsunk : core.Sunk index root) (hfloor : core.floor < next.floor) :
    next.Sunk index root := by
  rcases hsunk with hlt | ⟨-, rfl, -⟩
  · exact .inl (hlt.trans hfloor)
  · exact .inl hfloor

theorem Standing.of_fencing (hstand : core.Standing index root)
    (hwall : next.fencing = core.fencing) (htip : core.tip ≤ next.tip) :
    next.Standing index root := by
  obtain ⟨hfloor, -, hprep, hpend⟩ := Fencing.mk.inj hwall
  obtain ⟨habove, hpos, hwith, hspan, hnod, hyields⟩ := hstand
  rw [← hfloor] at habove
  rw [← hprep] at hspan hnod
  rw [← hpend] at hyields
  exact ⟨habove, hpos, hwith.trans htip, hspan, hnod, hyields⟩

theorem Candidate.of_fencing (hbid : core.Candidate index root)
    (hwall : next.fencing = core.fencing) (htip : core.tip ≤ next.tip)
    (hlist : core.wal.entries ⊆ next.wal.entries) : next.Candidate index root := by
  obtain ⟨hfloor, -, hprep, -⟩ := Fencing.mk.inj hwall
  obtain ⟨habove, hpos, hwith, hlog, hpass⟩ := hbid
  rw [← hfloor] at habove
  rw [← hprep] at hpass
  exact ⟨habove, hpos, hwith.trans htip, hlog.mono hlist, hpass⟩

end Core

/-- The sections that neither touch a preparation nor move the floor. -/
def Action.plain : Action → Bool
  | .prepare _ _ _ | .finish _ | .compactCommit | .crash => false
  | _ => true

namespace Replica

variable {codec : Codec} {replica next : Replica} {action : Action} {call : Pending}
  {position : ℕ}

theorem Performs.fencing_eq (hacts : replica.Performs codec action next)
    (hplain : action.plain = true) : next.core.fencing = replica.core.fencing := by
  cases hacts with
  | stageValue hstage | storeValue hstage =>
    exact Core.stageValueLocked_fencing (Core.stageValue_eq_ok hstage).2
  | stage hin hstage =>
    rcases Core.recordStage_cases hstage with rfl | ⟨-, hstage⟩
    · rfl
    · exact Core.stageValueLocked_fencing hstage
  | record hin hjot => exact Core.recordApply_fencing hjot
  | @install decision configID hvet =>
    rcases Core.acceptInstall_climbs codec replica.core decision configID with hup |
        ⟨-, -, hup⟩
    · exact hup.fencing_eq
    · exact hup.fencing_eq
  | logDecision hdec => exact (Core.logDecision_marks hdec).fencing_eq
  | @ensureDurable slot core slots hadd =>
    have hmarks := Core.ensureDurableAppend_marks codec replica.core slot
    rw [hadd] at hmarks
    exact hmarks.fencing_eq
  | @ensured slot core result hadd =>
    have hmarks := Core.ensureDurableAppend_marks codec replica.core slot
    rw [hadd] at hmarks
    exact hmarks.fencing_eq
  | compactBegin hidle hbar hfree hbegin =>
    obtain ⟨rfl, -⟩ := Core.compactBegin_eq_ok hbegin
    rfl
  | admitRequest | check | sync | cancel | compactFinish => rfl
  | prepare | finish | compactCommit | crash => cases hplain

/-- The last section of a call that is not a preparation keeps the fence. -/
theorem complete_fencing (core : Core) (hcall : call.holdsCheckpoint = false) :
    (complete core call).fencing = core.fencing := by
  cases call with
  | storeValue => rfl
  | record request summary completion => cases completion <;> rfl
  | ensureDurable =>
    simp only [complete, Core.markDecisionsDurable_eq]
    rfl
  | prepare => cases hcall

/-- Checkpoints are prepared one at a time, and none while a compaction runs. -/
structure Serial (replica : Replica) : Prop where
  single : ∀ {index index' prepared prepared'},
    replica.core.pendingPrepares.lookup index = some prepared →
    replica.core.pendingPrepares.lookup index' = some prepared' → index = index'
  exclusive : replica.compaction ≠ none → ∀ call ∈ replica.pending, call.1.holdsCheckpoint = false
  running : ∀ {running}, replica.compaction = some running → running.committed = false →
    replica.core.preparedCheckpoints.lookup running.base.closedThrough =
      some running.base.recoveryRoot

theorem serial_newCore (options : CoreOptions) : (opened (newCore options ⟨[], []⟩)).Serial :=
  ⟨nofun, nofun, nofun⟩

theorem Serial.of_idle (hidle : replica.compaction = none)
    (hsingle : ∀ {index index' prepared prepared'},
      replica.core.pendingPrepares.lookup index = some prepared →
      replica.core.pendingPrepares.lookup index' = some prepared' → index = index') :
    replica.Serial :=
  ⟨hsingle, fun hpack => absurd hidle hpack,
    fun hgoing => absurd (hidle.symm.trans hgoing) nofun⟩

/-- A waiting preparation was waiting before, and only a sync changes its state. -/
theorem Performs.pending_prepare (hacts : replica.Performs codec action next)
    (hplain : action.plain = true) {flushed : Bool}
    (hmem : (call, flushed) ∈ next.pending) (hholds : call.holdsCheckpoint = true) :
    (call, flushed) ∈ replica.pending ∨
      (∃ flushed', (call, flushed') ∈ replica.pending) ∧
        next.core.wal = replica.core.wal.sync := by
  cases hacts with
  | storeValue | ensureDurable | record =>
    rcases mem_wait hmem with hold | ⟨rfl, -⟩
    · exact .inl hold
    · cases hholds
  | sync =>
    obtain ⟨⟨call', flushed'⟩, hcall, heq⟩ := List.mem_map.mp hmem
    cases heq
    exact .inr ⟨⟨flushed', hcall⟩, rfl⟩
  | cancel => exact .inl (List.mem_of_mem_eraseIdx hmem)
  | prepare | finish | compactCommit | crash => cases hplain
  | _ => exact .inl hmem

/-- The end of a call leaves the fence alone, or raises it to the one candidate. -/
theorem finish_cases (hstep : replica.step codec (.finish position) = some next) :
    (replica.preparedMarks position = [] ∧ next.core.fencing = replica.core.fencing) ∨
    ∃ index prepared current, (.prepare index prepared, true) ∈ replica.pending ∧
      replica.core.pendingPrepares.lookup index = some current ∧ current.root = prepared.root ∧
      replica.preparedMarks position = [.prepared index prepared.root] ∧
      next.core.fencing = ⟨replica.core.floor, replica.core.floorRoot,
        (∅ : Table ℕ ValueHash).insert index prepared.root,
        replica.core.pendingPrepares.erase index⟩ := by
  cases step_performs hstep with
  | @finish _ call hcall hlet =>
  obtain ⟨call, flushed⟩ := call
  cases call with
  | prepare index prepared =>
    obtain rfl : flushed = true := hlet
    rcases complete_prepare replica.core index prepared with ⟨err, herror, hcore⟩ |
      ⟨_, current, hok, hnow, hroot, hcore⟩
    · exact .inl ⟨by simp only [preparedMarks, hcall, herror], congrArg Core.fencing hcore⟩
    · refine .inr ⟨index, prepared, current, List.mem_of_getElem? hcall, hnow, hroot,
        by simp only [preparedMarks, hcall, hok], ?_⟩
      exact congrArg Core.fencing hcore
  | storeValue | record | ensureDurable =>
    exact .inl ⟨by simp only [preparedMarks, hcall], complete_fencing replica.core rfl⟩

/-- The end of a call keeps the log and the running compaction. -/
theorem finish_keeps (hstep : replica.step codec (.finish position) = some next) :
    next.compaction = replica.compaction ∧ next.core.tip = replica.core.tip ∧
      next.core.wal = replica.core.wal ∧ ∀ call ∈ next.pending, call ∈ replica.pending := by
  cases step_performs hstep with
  | @finish _ call _ _ =>
  obtain ⟨_, _, _, _, heq⟩ := complete_eq replica.core call.1
  rw [heq]
  exact ⟨rfl, rfl, rfl, fun _ => List.mem_of_mem_eraseIdx⟩

section Serial

variable (hrep : replica.Serial)
include hrep

theorem Serial.plain (hacts : replica.Performs codec action next) (hplain : action.plain = true) :
    next.Serial := by
  obtain ⟨-, -, htable, hpend⟩ := Core.Fencing.mk.inj (hacts.fencing_eq hplain)
  refine ⟨?_, fun hpack call hmem => eq_false_of_ne_true fun hholds => ?_,
    fun {running} hgoing hopen => ?_⟩
  · rw [hpend]
    exact hrep.single
  · have hold : ∃ flushed, (call.1, flushed) ∈ replica.pending := by
      rcases hacts.pending_prepare hplain hmem hholds with hold | ⟨hold, -⟩
      · exact ⟨_, hold⟩
      · exact hold
    obtain ⟨flushed, hold⟩ := hold
    have hfree : ∀ call ∈ replica.pending, call.1.holdsCheckpoint = false := by
      cases hacts with
      | compactBegin _ _ hfree _ =>
        intro call hmem
        simpa using List.all_eq_true.mp hfree call hmem
      | compactFinish => exact absurd rfl hpack
      | prepare | finish | compactCommit | crash => cases hplain
      | _ => exact hrep.exclusive hpack
    exact Bool.false_ne_true ((hfree _ hold).symm.trans hholds)
  · rw [htable]
    cases hacts with
    | compactBegin _ _ _ hbegin =>
      cases hgoing
      exact Core.compactBegin_prepared hbegin
    | compactFinish => cases hgoing
    | prepare | finish | compactCommit | crash => cases hplain
    | _ => exact hrep.running hgoing hopen

theorem Serial.finish (hstep : replica.step codec (.finish position) = some next) :
    next.Serial := by
  obtain ⟨hpack, -, -, hcalls⟩ := finish_keeps hstep
  rcases finish_cases hstep with ⟨-, hfence⟩ | ⟨index, prepared, current, hwait, hnow, -, -, hfence⟩
  · obtain ⟨-, -, htable, hpend⟩ := Core.Fencing.mk.inj hfence
    refine ⟨?_, ?_, ?_⟩
    · rw [hpend]
      exact hrep.single
    · rw [hpack]
      exact fun hpack call hmem => hrep.exclusive hpack call (hcalls call hmem)
    · rw [hpack, htable]
      exact hrep.running
  · -- A preparation ends only where no compaction runs.
    refine .of_idle ?_ fun {other other' _ _} hget _ => ?_
    · by_contra hgoing
      cases hrep.exclusive (hpack ▸ hgoing) _ hwait
    · rw [(Core.Fencing.mk.inj hfence).2.2.2, Table.lookup_erase_of_single hnow hrep.single]
        at hget
      cases hget

theorem Serial.commit (hstep : replica.step codec .compactCommit = some next) : next.Serial := by
  cases step_performs hstep with
  | @compactCommit running core hgoing _ hfirst hsave =>
  obtain ⟨-, verifier, rfl⟩ := Core.compactCommit_eq_ok hsave
  exact ⟨hrep.single, fun _ => hrep.exclusive (by rw [hgoing]; nofun),
    fun hpack hopen => by cases hpack; cases hopen⟩

theorem Serial.resume {call : Pending} (hfree : replica.checkpointFree = true) :
    Serial { replica with pending := replica.wait call } := by
  obtain ⟨hidle, -⟩ := Bool.and_eq_true _ _ |>.mp hfree
  exact .of_idle (Option.isNone_iff_eq_none.mp hidle) hrep.single

end Serial

/-- What holds of a replica and the marks it has left, between two sections. -/
structure Held (codec : Codec) (replica : Replica) (history : List Mark) : Prop extends
    replica.Serial where
  disciplined : replica.Disciplined codec
  rooted : replica.core.Rooted
  based : replica.core.floor = 0 ∨ ∃ base, .checkpoint base ∈ replica.core.wal.synced ∧
    base.closedThrough = replica.core.floor ∧ base.recoveryRoot = replica.core.floorRoot
  anchored : 0 < replica.core.floor →
    .prepared replica.core.floor replica.core.floorRoot ∈ history
  recalled : ∀ {index root}, replica.core.preparedCheckpoints.lookup index = some root →
    .prepared index root ∈ history
  prepared : ∀ {index root}, .prepared index root ∈ history →
    replica.core.Sunk index root ∨
      replica.core.Standing index root ∧ Core.MarkedAt replica.core.wal.synced index root
  marked : ∀ {checkpoint}, .checkpointVerified checkpoint ∈ replica.core.wal.entries →
    replica.core.Watched checkpoint.index checkpoint.rootHash
  candidates : ∀ {index prepared}, replica.core.pendingPrepares.lookup index = some prepared →
    replica.core.Sunk index prepared.root ∨ replica.core.Candidate index prepared.root
  waiting : ∀ {index prepared flushed}, (.prepare index prepared, flushed) ∈ replica.pending →
    replica.core.Sunk index prepared.root ∨
      Core.MarkedAt replica.core.wal.entries index prepared.root ∧
        (flushed = true → Core.MarkedAt replica.core.wal.synced index prepared.root)

theorem held_newCore (codec : Codec) (options : CoreOptions) :
    (opened (newCore options ⟨[], []⟩)).Held codec [] where
  disciplined := disciplined_newCore ..
  rooted := ⟨Nat.le_refl _, fun _ hslot => absurd hslot (Nat.not_lt_zero _)⟩
  based := .inl rfl
  anchored := nofun
  recalled := nofun
  prepared := nofun
  marked := nofun
  candidates := nofun
  waiting := nofun
  toSerial := serial_newCore options

variable {history : List Mark}

section Held

variable (hrep : replica.Held codec history)
include hrep

theorem Held.based_congr (hfloor : next.core.floor = replica.core.floor)
    (hroot : next.core.floorRoot = replica.core.floorRoot)
    (hsync : replica.core.wal.synced ⊆ next.core.wal.synced) :
    next.core.floor = 0 ∨ ∃ base, .checkpoint base ∈ next.core.wal.synced ∧
      base.closedThrough = next.core.floor ∧ base.recoveryRoot = next.core.floorRoot := by
  rw [hfloor, hroot]
  rcases hrep.based with hzero | ⟨base, hmem, hbase⟩
  · exact .inl hzero
  · exact .inr ⟨base, hsync hmem, hbase⟩

/-- New markers belong to pending preparations. -/
theorem Held.marked_adds
    (hadds : replica.core.wal.Adds (Core.Appended replica.core next.core) next.core.wal)
    (hkeep : ∀ {index root}, replica.core.Watched index root → next.core.Watched index root)
    {checkpoint : CheckpointSeal} (hmem : .checkpointVerified checkpoint ∈ next.core.wal.entries) :
    next.core.Watched checkpoint.index checkpoint.rootHash := by
  obtain ⟨added, hadded, hlist, -⟩ := hadds
  rw [hlist] at hmem
  rcases List.mem_append.mp hmem with hold | hnew
  · exact hkeep (hrep.marked hold)
  · cases hadded _ hnew with
    | verified hpend hroot => exact .inr (.inl ⟨_, hpend, hroot⟩)

/-- A change that leaves the fence alone keeps what the replica holds. -/
theorem Held.congr (hrule : next.Disciplined codec) (hrooted : next.core.Rooted)
    (hwall : next.core.fencing = replica.core.fencing) (htip : replica.core.tip ≤ next.core.tip)
    (hadds : replica.core.wal.Adds (Core.Appended replica.core next.core) next.core.wal)
    (hwait : ∀ {call flushed}, (call, flushed) ∈ next.pending → call.holdsCheckpoint = true →
      (call, flushed) ∈ replica.pending ∨ (∃ flushed', (call, flushed') ∈ replica.pending) ∧
      next.core.wal = replica.core.wal.sync)
    (hserial : next.Serial) : next.Held codec history := by
  obtain ⟨hfloor, hroot, hprep, hpend⟩ := Core.Fencing.mk.inj hwall
  have hsync := hadds.synced_subset
  have hlist := hadds.entries_subset
  refine
    { disciplined := hrule
      rooted := hrooted
      based := hrep.based_congr hfloor hroot hsync
      anchored := hfloor ▸ hroot ▸ hrep.anchored
      recalled := hprep ▸ hrep.recalled
      prepared := fun hmark => ?_
      marked := hrep.marked_adds hadds fun hwatch => ?_
      candidates := fun hget => ?_
      waiting := fun hmem => ?_
      toSerial := hserial }
  · rcases hrep.prepared hmark with hsunk | ⟨hstand, hfix⟩
    · exact .inl (hsunk.of_fencing hwall)
    · exact .inr ⟨hstand.of_fencing hwall htip, hfix.mono hsync⟩
  · rcases hwatch with hsunk | hwait | hstand
    · exact .inl (hsunk.of_fencing hwall)
    · exact .inr (.inl (hpend ▸ hwait))
    · exact .inr (.inr (hstand.of_fencing hwall htip))
  · rw [hpend] at hget
    rcases hrep.candidates hget with hsunk | hbid
    · exact .inl (hsunk.of_fencing hwall)
    · exact .inr (hbid.of_fencing hwall htip hlist)
  · rcases hwait hmem rfl with hold | ⟨⟨flushed', hold⟩, hwal⟩
    · rcases hrep.waiting hold with hsunk | ⟨hlog, hfix⟩
      · exact .inl (hsunk.of_fencing hwall)
      · exact .inr ⟨hlog.mono hlist, fun hflush => (hfix hflush).mono hsync⟩
    · rcases hrep.waiting hold with hsunk | ⟨hlog, -⟩
      · exact .inl (hsunk.of_fencing hwall)
      · refine .inr ⟨hlog.mono hlist, fun _ => ?_⟩
        rw [hwal, WAL.synced_sync]
        exact hlog

/-- A section that leaves the fence alone keeps what the replica holds. -/
theorem Held.plain (hstep : replica.step codec action = some next) (hplain : action.plain = true) :
    next.Held codec history := by
  have hacts := step_performs hstep
  have hcrash : action ≠ .crash := by
    rintro rfl
    cases hplain
  have hsave : action ≠ .compactCommit := by
    rintro rfl
    cases hplain
  exact hrep.congr (hrep.disciplined.performs hacts) (step_rooted hstep hrep.rooted)
    (hacts.fencing_eq hplain) (step_tip_le hcrash hstep) (hacts.changes hsave hcrash).adds
    (hacts.pending_prepare hplain) (hrep.toSerial.plain hacts hplain)

/-- A preparation keeps what the replica holds, and its marker becomes a candidate. -/
theorem Held.prepare {checkpoint : CheckpointSeal} {payload : Bytes}
    (hstep : replica.step codec (.prepare checkpoint payload (replica.core.checkPrepare codec
      checkpoint payload).toOption.isSome) = some next) :
    next.Held codec history := by
  have hacts := step_performs hstep
  have hcrash : Action.prepare checkpoint payload
      (replica.core.checkPrepare codec checkpoint payload).toOption.isSome ≠ .crash := nofun
  have htip := step_tip_le hcrash hstep
  have hadds := (hacts.changes nofun hcrash).adds
  have hrule := hrep.disciplined.performs hacts
  have hrooted := step_rooted hstep hrep.rooted
  cases hacts with
  | @prepare _ _ _ core prepared hidle hmade =>
  have hpreps := Core.prepareAppend_prepares hmade
  obtain ⟨hfloor, hbottom, htable, -⟩ := Core.Fencing.mk.inj hpreps.fencing_eq
  have hmarker : Core.MarkedAt core.wal.entries checkpoint.index prepared.root :=
    ⟨checkpoint, hpreps.marked, rfl, hpreps.root_eq.symm⟩
  have hfence : ∀ {earlier root}, replica.core.preparedCheckpoints.lookup earlier = some root →
      earlier ≤ checkpoint.index ∧ (earlier = checkpoint.index → root = prepared.root) := by
    intro earlier root hget
    rcases Nat.eq_zero_or_pos earlier with rfl | hpos
    · exact ⟨Nat.zero_le _, fun heq => absurd heq (Nat.ne_of_lt hpreps.positive)⟩
    · rw [hpreps.root_eq]
      exact Core.checkCheckpointFence_spec hpreps.fence hget hpos
  -- The retained prefix starts at the floor, so the candidate is not behind it.
  have habove : replica.core.floor ≤ checkpoint.index := by
    by_contra hbelow
    have hstay := hpreps.retained
    rw [hrep.rooted.cleared _ (Nat.lt_of_not_le hbelow)] at hstay
    cases hstay
  have hkeep : ∀ {index root}, replica.core.Standing index root → core.Standing index root := by
    rintro index root ⟨habove, hpos, hwith, hspan, hnod, -⟩
    refine ⟨hfloor ▸ habove, hpos, hwith.trans htip, htable ▸ hspan, htable ▸ hnod, ?_⟩
    intro later pending hget
    obtain ⟨rfl, rfl⟩ := hpreps.only hget
    obtain ⟨covering, root', hcovering, hle⟩ := hspan
    obtain ⟨hbound, hsame⟩ := hfence hcovering
    refine ⟨hle.trans hbound, fun heq => ?_⟩
    obtain rfl : covering = _ := Nat.le_antisymm (heq ▸ hbound) hle
    rw [← hsame heq.symm]
    exact hnod root' hcovering
  refine
    { disciplined := hrule
      rooted := hrooted
      based := hrep.based_congr hfloor hbottom hadds.synced_subset
      anchored := hfloor ▸ hbottom ▸ hrep.anchored
      recalled := htable ▸ hrep.recalled
      prepared := fun hmark => ?_
      marked := hrep.marked_adds hadds fun hwatch => ?_
      candidates := fun hget => ?_
      waiting := fun hmem => ?_
      toSerial := .of_idle hidle fun hget hget' =>
        (hpreps.only hget).1.trans (hpreps.only hget').1.symm }
  · rcases hrep.prepared hmark with hsunk | ⟨hstand, hfix⟩
    · exact .inl (hsunk.congr hfloor hbottom)
    · exact .inr ⟨hkeep hstand, hfix.mono hadds.synced_subset⟩
  · rcases hwatch with hsunk | ⟨prepared, hget, -⟩ | hstand
    · exact .inl (hsunk.congr hfloor hbottom)
    · rw [hpreps.idle] at hget
      cases hget
    · exact .inr (.inr (hkeep hstand))
  · obtain ⟨rfl, rfl⟩ := hpreps.only hget
    refine .inr ⟨hfloor ▸ habove, hpreps.positive, hpreps.within.trans htip, hmarker, ?_⟩
    rw [htable]
    exact fun _ _ hget => hfence hget
  · rcases mem_wait hmem with hold | ⟨heq, rfl⟩
    · rcases hrep.waiting hold with hsunk | ⟨hlog, hfix⟩
      · exact .inl (hsunk.congr hfloor hbottom)
      · exact .inr ⟨hlog.mono hadds.entries_subset,
          fun hflush => (hfix hflush).mono hadds.synced_subset⟩
    · cases heq
      exact .inr ⟨hmarker, nofun⟩

end Held

/-- A finished preparation: the candidate is prepared, and the only prepared one. -/
theorem Held.raise (hrep : replica.Held codec history) {index : ℕ}
    {prepared current : PendingCheckpointPrepare}
    (hnow : replica.core.pendingPrepares.lookup index = some current)
    (hroot : current.root = prepared.root)
    (hwait : (.prepare index prepared, true) ∈ replica.pending)
    (hpend : ∀ call ∈ next.pending, call ∈ replica.pending)
    (hwall : next.core.fencing = ⟨replica.core.floor, replica.core.floorRoot,
      (∅ : Table ℕ ValueHash).insert index prepared.root,
      replica.core.pendingPrepares.erase index⟩)
    (htip : next.core.tip = replica.core.tip) (hwal : next.core.wal = replica.core.wal)
    (hrule : next.Disciplined codec) (hrooted : next.core.Rooted) (hserial : next.Serial) :
    next.Held codec (history ++ [.prepared index prepared.root]) := by
  obtain ⟨hfloor, hbottom, htable, hwipe⟩ := Core.Fencing.mk.inj hwall
  have hget : next.core.preparedCheckpoints.lookup index = some prepared.root := by
    rw [htable]
    exact AList.lookup_insert _
  -- The finished candidate was the only one.
  have hnone : ∀ later, next.core.pendingPrepares.lookup later = none := by
    rw [hwipe]
    exact Table.lookup_erase_of_single hnow hrep.single
  have hnew : next.core.Sunk index prepared.root ∨
      next.core.Standing index prepared.root ∧
        Core.MarkedAt next.core.wal.synced index prepared.root := by
    rcases hrep.candidates hnow with hsunk | hbid
    · rw [hroot] at hsunk
      exact .inl (hsunk.congr hfloor hbottom)
    · rcases hrep.waiting hwait with hsunk | ⟨-, hfix⟩
      · exact .inl (hsunk.congr hfloor hbottom)
      · refine .inr ⟨?_, hwal ▸ hfix rfl⟩
        exact
          { above := hfloor ▸ hbid.above
            positive := hbid.positive
            within := htip ▸ hbid.within
            covered := ⟨index, _, hget, Nat.le_refl _⟩
            agrees := fun root hnod => Option.some_inj.mp (hnod.symm.trans hget)
            yields := fun later _ hlater => by rw [hnone] at hlater; cases hlater }
  have hkeep : ∀ {earlier root}, replica.core.Standing earlier root →
      next.core.Standing earlier root := by
    intro earlier root hstand
    obtain ⟨hle, hsame⟩ := hstand.yields index current hnow
    refine
      { above := hfloor ▸ hstand.above
        positive := hstand.positive
        within := htip ▸ hstand.within
        covered := ⟨index, _, hget, hle⟩
        agrees := fun root' hnod => ?_
        yields := fun later _ hlater => by rw [hnone] at hlater; cases hlater }
    rw [htable, Table.lookup_insert_eq] at hnod
    split at hnod
    next heq =>
      rw [← hsame heq.symm, hroot]
      exact (Option.some_inj.mp hnod).symm
    next => cases hnod
  have hbased : next.core.floor = 0 ∨ ∃ base, .checkpoint base ∈ next.core.wal.synced ∧
      base.closedThrough = next.core.floor ∧ base.recoveryRoot = next.core.floorRoot := by
    rw [hfloor, hbottom, hwal]
    exact hrep.based
  refine
    { disciplined := hrule
      rooted := hrooted
      based := hbased
      anchored := fun hpos => ?_
      recalled := fun {earlier root} hlook => ?_
      prepared := fun {earlier root} hmark => ?_
      marked := fun {checkpoint} hmem => ?_
      candidates := fun hlater => by rw [hnone] at hlater; cases hlater
      waiting := fun hmem => ?_
      toSerial := hserial }
  · rw [hfloor, hbottom]
    exact List.mem_append_left _ (hrep.anchored (hfloor ▸ hpos))
  · rw [htable] at hlook
    rcases Table.of_lookup_insert hlook with ⟨rfl, rfl⟩ | hnone
    · exact List.mem_append_right _ List.mem_cons_self
    · cases hnone
  · rcases List.mem_append.mp hmark with hold | hlast
    · rcases hrep.prepared hold with hsunk | ⟨hstand, hfix⟩
      · exact .inl (hsunk.congr hfloor hbottom)
      · exact .inr ⟨hkeep hstand, hwal ▸ hfix⟩
    · cases List.mem_singleton.mp hlast
      exact hnew
  · rcases hrep.marked (hwal ▸ hmem) with hsunk | ⟨candidate, hbid, hsame⟩ | hstand
    · exact .inl (hsunk.congr hfloor hbottom)
    · have heq := hrep.single hbid hnow
      rw [heq] at hbid ⊢
      cases hnow.symm.trans hbid
      rw [← hsame, hroot]
      exact hnew.imp_right fun hnew => .inr hnew.1
    · exact .inr (.inr (hkeep hstand))
  · rcases hrep.waiting (hpend _ hmem) with hsunk | hnote
    · exact .inl (hsunk.congr hfloor hbottom)
    · exact .inr (hwal ▸ hnote)

/-- The end of a call raises the fence if the call was a preparation. -/
theorem Held.finish (hrep : replica.Held codec history)
    (hstep : replica.step codec (.finish position) = some next) :
    next.Held codec (history ++ replica.preparedMarks position) := by
  have hacts := step_performs hstep
  have hrule := hrep.disciplined.performs hacts
  have hrooted := step_rooted hstep hrep.rooted
  have hserial := hrep.toSerial.finish hstep
  obtain ⟨-, htip, hwal, hpend⟩ := finish_keeps hstep
  rcases finish_cases hstep with ⟨hmarks, hfence⟩ |
    ⟨index, prepared, current, hwait, hnow, hroot, hmarks, hfence⟩
  · rw [hmarks, List.append_nil]
    exact hrep.congr hrule hrooted hfence htip.ge (hacts.changes nofun nofun).adds
      (fun hmem _ => .inl (hpend _ hmem)) hserial
  · rw [hmarks]
    exact hrep.raise hnow hroot hwait hpend hfence htip hwal hrule hrooted hserial

end Replica

end Rhiza.QuePaxa
