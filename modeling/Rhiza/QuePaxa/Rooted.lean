import Rhiza.QuePaxa.Checkpoint
import Rhiza.QuePaxa.Prefix

/-! # The floor and what stands on it

Below the floor no prefix hash is retained, so nothing can be checked against a slot
there. The floor and its recovery root survive a restart in the base at the head of the
log, and the prepared checkpoints above the floor in their markers.
-/

namespace Rhiza.QuePaxa

open Foundations

namespace Core

variable {codec : Codec} {core next : Core} {base : ConsensusBase} {verifier : Core} {entry : Entry}
  {checkpoint : CheckpointSeal}

/-- The prefix starts at the floor. -/
structure Rooted (core : Core) : Prop where
  floor_le_tip : core.floor ≤ core.tip
  cleared : ∀ slot < core.floor, core.prefixes.lookup slot = none

theorem Climbs.floor_eq (hup : core.Climbs codec next) : next.floor = core.floor := by
  obtain ⟨_, _, _, _, _, _, _, rfl⟩ := hup.advances
  rfl

theorem Climbs.rooted (hup : core.Climbs codec next) (hcore : core.Rooted) : next.Rooted where
  floor_le_tip := by
    rw [hup.floor_eq]
    exact hcore.floor_le_tip.trans hup.tip_le
  cleared slot hslot := by
    rw [hup.floor_eq] at hslot
    rw [hup.prefixes_lookup (Nat.le_trans (Nat.le_of_lt hslot) hcore.floor_le_tip)]
    exact hcore.cleared slot hslot

theorem rooted_installBase (core : Core) (base : ConsensusBase) :
    (core.installBase base).Rooted where
  floor_le_tip := Nat.le_refl _
  cleared slot hslot := by
    have hempty : (∅ : Table ℕ ValueHash).lookup slot = none := rfl
    exact (AList.lookup_insert_ne (Nat.ne_of_lt hslot)).trans hempty

theorem rebuildSuffix_rooted
    (hredo : core.rebuildSuffix codec base = .ok verifier) :
    verifier.Rooted ∧ verifier.floor = base.closedThrough := by
  obtain ⟨anchored, -, hredo⟩ := bind_eq_ok.mp hredo
  obtain ⟨based, -, hsuffix⟩ := bind_eq_ok.mp hredo
  apply verifySuffix_induction (motive := fun core => core.Rooted ∧ core.floor = base.closedThrough)
    _ _ hsuffix ⟨rooted_installBase based base, rfl⟩
  · intro core decided hcore
    exact ⟨⟨hcore.1.floor_le_tip, hcore.1.cleared⟩, hcore.2⟩
  · intro core hcore
    have hup := advance_climbs codec core
    exact ⟨hup.rooted hcore.1, hup.floor_eq.trans hcore.2⟩

/-- A switch to a base takes the prefix of the verifier that was rebuilt from it. -/
theorem Rooted.rebased (hverifier : verifier.Rooted)
    (hfloor : verifier.floor = base.closedThrough) (core : Core) :
    ((core.installVerifiedBase base verifier).pruneSlotAllocator).Rooted := by
  obtain ⟨hle, hwipe⟩ := hverifier
  rw [hfloor] at hle hwipe
  exact ⟨hle, hwipe⟩

theorem Replays.rooted (hreps : core.Replays codec entry next)
    (hcore : core.Rooted) : next.Rooted := by
  cases hreps with
  | base => exact rooted_installBase _ _
  | _ => exact ⟨hcore.floor_le_tip, hcore.cleared⟩

theorem reopen_rooted (hopen : core.reopen codec = .ok next) : next.Rooted := by
  obtain ⟨scanned, prepared, decisions, hscan, hpicks, _, _, _, rfl, -, -⟩ := reopen_eq_ok hopen
  have hstart : ∀ options wal, (newCore options wal).Rooted := by
    intros
    exact ⟨Nat.le_refl _, fun _ hslot => absurd hslot (Nat.not_lt_zero _)⟩
  have hscanned : scanned.Rooted := by
    apply recoverEntries_induction (motive := fun _ core => core.Rooted) _ hscan (hstart ..)
    intro before entry after core next _ hcore hreps
    exact hreps.rooted hcore
  have hdec := (recoverDecisions_climbs hpicks).rooted hscanned
  exact ⟨hdec.floor_le_tip, hdec.cleared⟩

/-- A restart finds the recovery root of the base at the head of its log. -/
theorem reopen_floorRoot (hhead : Headed core.wal.synced) (hopen : core.reopen codec = .ok next)
    (hbase : .checkpoint base ∈ core.wal.synced) : next.floorRoot = base.recoveryRoot := by
  obtain ⟨scanned, prepared, decisions, hscan, hpicks, _, _, _, rfl, -, -⟩ := reopen_eq_ok hopen
  have hscanned : ∀ base, .checkpoint base ∈ core.wal.synced →
      scanned.floorRoot = base.recoveryRoot := by
    apply recoverEntries_induction (motive := fun before core =>
      ∀ base, .checkpoint base ∈ before → core.floorRoot = base.recoveryRoot) _ hscan nofun
    intro before entry after core next hsplit hcore hreps base hmem
    cases hreps with
    | base =>
      obtain rfl := hhead.eq_nil hsplit
      cases List.mem_singleton.mp hmem
      rfl
    | _ =>
      rcases List.mem_append.mp hmem with hpre | hlast
      · exact hcore base hpre
      · cases List.mem_singleton.mp hlast
  obtain ⟨_, _, _, _, _, _, _, rfl⟩ := recoverDecisions_advances hpicks
  exact hscanned base hbase

/-- Replaying an entry prepares nothing. -/
theorem Replays.unprepared (hreps : core.Replays codec entry next)
    (hcore : core.pendingPrepares = ∅ ∧ core.preparedCheckpoints = ∅) :
    next.pendingPrepares = ∅ ∧ next.preparedCheckpoints = ∅ := by
  cases hreps with
  | base hbased =>
    obtain ⟨_, _, _, _, _, rfl⟩ := installMembershipBase_cases hbased
    refine ⟨hcore.1, ?_⟩
    simp only [installBase, dropUnusedValues, hcore.2]
    rfl
  | _ => exact hcore

/-- Neither the scan nor the replayed decisions prepare anything. -/
theorem recoverDecisions_unprepared {scanned decisions : Core} {prepared : List CheckpointSeal}
    (hscan : recoverEntries codec (newCore core.toCoreOptions core.wal.crash, []) core.wal.synced =
        .ok (scanned, prepared))
    (hpicks : scanned.recoverDecisions codec = .ok decisions) :
    decisions.pendingPrepares = ∅ ∧ decisions.preparedCheckpoints = ∅ := by
  have hscanned : scanned.pendingPrepares = ∅ ∧ scanned.preparedCheckpoints = ∅ := by
    apply recoverEntries_induction (motive := fun _ core =>
      core.pendingPrepares = ∅ ∧ core.preparedCheckpoints = ∅) _ hscan ⟨rfl, rfl⟩
    intro before entry after core next _ hcore hreps
    exact hreps.unprepared hcore
  obtain ⟨_, _, _, _, _, _, _, rfl⟩ := recoverDecisions_advances hpicks
  exact hscanned

/-- A restart forgets the markers whose durability was unresolved. -/
theorem reopen_pendingPrepares (hopen : core.reopen codec = .ok next) :
    next.pendingPrepares = ∅ := by
  obtain ⟨scanned, prepared, decisions, hscan, hpicks, _, _, _, rfl, -, -⟩ := reopen_eq_ok hopen
  exact (recoverDecisions_unprepared hscan hpicks).1

/-- The scan collects exactly the markers of prepared checkpoints. -/
theorem mem_recoverEntries {entries : List Entry} {state final : Core × List CheckpointSeal}
    (hscan : recoverEntries codec state entries = .ok final) :
    checkpoint ∈ final.2 ↔ checkpoint ∈ state.2 ∨ .checkpointVerified checkpoint ∈ entries := by
  induction entries generalizing state with
  | nil =>
    cases hscan
    simp
  | cons entry rest ih =>
    obtain ⟨next, hentry, hrest⟩ := bind_eq_ok.mp hscan
    rw [ih hrest]
    cases entry with
    | checkpointVerified =>
      obtain ⟨-, hnext⟩ := seq_eq_ok.mp hentry
      cases hnext
      simp [or_assoc]
    | reconfigurationMarker =>
      obtain ⟨-, hnext⟩ := seq_eq_ok.mp hentry
      cases hnext
      simp
    | checkpoint | proposal | receipt | decide =>
      obtain ⟨core, -, hnext⟩ := bind_eq_ok.mp hentry
      cases hnext
      simp

/-- Every collected marker is checked against the recovered prefix and counts as
prepared again, and nothing else does. -/
theorem recoverPrepared_lookup {prepared : List CheckpointSeal}
    (hheal : recoverPrepared codec prepared core = .ok next) :
    (∀ checkpoint ∈ prepared, checkpoint.index ≤ core.tip) ∧
    ∀ {index root}, next.preparedCheckpoints.lookup index = some root ↔
      core.preparedCheckpoints.lookup index = some root ∨
        ∃ checkpoint ∈ prepared, checkpoint.index = index ∧ checkpoint.rootHash = root := by
  induction prepared generalizing core with
  | nil =>
    cases hheal
    simp
  | cons checkpoint rest ih =>
    simp only [recoverPrepared, validateRecoveredPreparedCheckpoint, seq_eq_ok,
      require_eq_ok] at hheal
    obtain ⟨⟨-, ⟨-, -, -, htip, -⟩, -⟩, hsame, hheal⟩ := hheal
    obtain ⟨hrest, hlook⟩ := ih hheal
    refine ⟨List.forall_mem_cons.mpr ⟨htip, hrest⟩, fun {index root} => ?_⟩
    rw [hlook, Table.lookup_insert_eq, List.exists_mem_cons_iff, ← or_assoc]
    apply or_congr_left
    split
    next heq =>
      subst heq
      refine ⟨fun hroot => .inr ⟨rfl, Option.some_inj.mp hroot⟩, ?_⟩
      rintro (hget | ⟨-, hroot⟩)
      · rw [hsame root hget]
      · rw [hroot]
    next hne => simp [Ne.symm hne]

/-- A restart counts exactly the checkpoints of the synced markers as prepared. -/
theorem reopen_prepared (hopen : core.reopen codec = .ok next) :
    (∀ {checkpoint}, .checkpointVerified checkpoint ∈ core.wal.synced →
      checkpoint.index ≤ next.tip) ∧
    ∀ {index root}, next.preparedCheckpoints.lookup index = some root ↔
      ∃ checkpoint, .checkpointVerified checkpoint ∈ core.wal.synced ∧
        checkpoint.index = index ∧ checkpoint.rootHash = root := by
  obtain ⟨scanned, prepared, decisions, hscan, hpicks, _, _, _, rfl, -, -, hprep⟩ :=
    reopen_eq_ok hopen
  have hcollected : ∀ {checkpoint}, checkpoint ∈ prepared ↔
      .checkpointVerified checkpoint ∈ core.wal.synced := by
    intro checkpoint
    have hmem : checkpoint ∈ prepared ↔
        checkpoint ∈ [] ∨ .checkpointVerified checkpoint ∈ core.wal.synced :=
      mem_recoverEntries hscan
    simpa using hmem
  obtain ⟨htip, hlook⟩ := recoverPrepared_lookup hprep
  rw [(recoverDecisions_unprepared hscan hpicks).2] at hlook
  simp only [hcollected] at htip hlook
  exact ⟨fun hmem => htip _ hmem, hlook.trans (or_iff_right nofun)⟩

theorem compactCommit_rooted {running : RunningCompaction}
    (hsave : core.compactCommit codec running = .ok next) : next.Rooted := by
  obtain ⟨-, hsave⟩ := seq_eq_ok.mp hsave
  obtain ⟨verifier, htest, hnext⟩ := bind_eq_ok.mp hsave
  cases hnext
  obtain ⟨rebuilt, hredo, htest⟩ := bind_eq_ok.mp htest
  simp only [seq_eq_ok, Except.ok.injEq] at htest
  obtain ⟨-, -, rfl⟩ := htest
  obtain ⟨hroot, hfloor⟩ := rebuildSuffix_rooted hredo
  exact hroot.rebased hfloor _

end Core

namespace Replica

variable {codec : Codec} {replica next : Replica} {action : Action}

/-- What depends on the certified prefix and the decisions alone and survives
installations, switches and restarts holds after every section. -/
theorem step_induction {motive : Core → Prop}
    (hsame : ∀ {core next : Core}, next.floor = core.floor → next.tip = core.tip →
      next.prefixes = core.prefixes → next.decided = core.decided → motive core → motive next)
    (hput : ∀ {core : Core} decision configID, motive core →
      motive (core.acceptInstall codec decision configID).1)
    (hsave : ∀ {core next : Core} {running}, core.compactCommit codec running = .ok next →
      motive core → motive next)
    (hopen : ∀ {core next : Core}, core.reopen codec = .ok next → motive next)
    (hstep : replica.step codec action = some next) (hcore : motive replica.core) :
    motive next.core := by
  have hkeep : ∀ {core : Core}, core.floor = replica.core.floor → core.tip = replica.core.tip →
      core.prefixes = replica.core.prefixes → core.decided = replica.core.decided → motive core :=
    fun hfloor htip hprefixes hdec => hsame hfloor htip hprefixes hdec hcore
  have hbook : ∀ {core : Core}, core.ledger = replica.core.ledger → motive core :=
    fun h => hkeep (congrArg (·.votes.floor) h) (congrArg Ledger.tip h)
      (congrArg Ledger.prefixes h) (congrArg (·.votes.decided) h)
  by_cases hquiet : action.quiet = true
  · exact hbook (step_quiet hquiet hstep).ledger
  cases step_performs hstep with
  | crash hrestart => exact hopen hrestart
  | install => exact hput _ _ hcore
  | compactCommit _ _ _ hswitch => exact hsave hswitch hcore
  | compactBegin _ _ _ hbegin =>
    obtain ⟨rfl, -⟩ := Core.compactBegin_eq_ok hbegin
    exact hkeep rfl rfl rfl rfl
  | compactFinish => exact hkeep rfl rfl rfl rfl
  | record _ hjot =>
    rcases (Core.recordApply_cases hjot).2 with ⟨decided, hdec, hsay⟩ | ⟨-, -, -, hsay⟩
    · exact hbook (Core.answerDecided_spec hdec hsay).1.ledger
    · cases hsay
      exact hkeep rfl rfl rfl rfl
  | _ => exact absurd rfl hquiet

/-- Every section keeps the prefix rooted at the floor. -/
theorem step_rooted (hstep : replica.step codec action = some next)
    (hcore : replica.core.Rooted) : next.core.Rooted := by
  refine step_induction ?_ ?_ (fun hsave _ => Core.compactCommit_rooted hsave)
    Core.reopen_rooted hstep hcore
  · intro core next hfloor htip hprefixes _ hcore
    refine ⟨?_, ?_⟩
    · rw [hfloor, htip]
      exact hcore.floor_le_tip
    · rw [hfloor, hprefixes]
      exact hcore.cleared
  · intro core decision configID hcore
    rcases Core.acceptInstall_climbs codec core decision configID with hup | ⟨-, -, hup⟩
    · exact hup.rooted hcore
    · exact hup.rooted ⟨hcore.floor_le_tip, hcore.cleared⟩

end Replica

end Rhiza.QuePaxa
