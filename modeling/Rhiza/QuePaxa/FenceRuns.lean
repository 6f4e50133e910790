import Rhiza.QuePaxa.FenceSteps
import Rhiza.QuePaxa.Agreement

/-! # Votes behind the prepared fence

A compaction, a restored base and a restart keep what a replica has prepared, above the
floor or in it. No vote goes back behind what was prepared in exactly the runs whose votes
at the floor are for the recovery root of the floor: a restart after a compaction forgets
the fence there.
-/

namespace Rhiza.QuePaxa

open Foundations

namespace Core

variable {codec : Codec} {core next : Core} {index : ℕ} {root : ValueHash} {wal : WAL}

/-- Markers above the new floor survive the switch of a compaction, synced. -/
theorem MarkedAt.commitCompaction {running : RunningCompaction}
    (hnote : MarkedAt wal.entries index root) (habove : running.base.closedThrough < index) :
    MarkedAt (wal.commitCompaction running).synced index root := by
  obtain ⟨checkpoint, hmem, rfl, hroot⟩ := hnote
  exact ⟨checkpoint, WAL.mem_commitCompaction_of_above hmem rfl habove, rfl, hroot⟩

theorem MarkedAt.of_synced (hnote : MarkedAt wal.synced index root) :
    MarkedAt wal.entries index root :=
  hnote.mono wal.synced_subset

end Core

namespace Replica

variable {codec : Codec} {replica next : Replica} {history : List Mark}

section Held

variable (hrep : replica.Held codec history)
include hrep

/-- The switch of a compaction: what was prepared at its floor is its recovery root. -/
theorem Held.commit (hstep : replica.step codec .compactCommit = some next) :
    next.Held codec history := by
  have hacts := step_performs hstep
  have hrule := hrep.disciplined.performs hacts
  have hrooted := step_rooted hstep hrep.rooted
  have hserial := hrep.toSerial.commit hstep
  cases hacts with
  | @compactCommit running core hgoing hbar hfirst hsave =>
  have htip := Core.compactCommit_tip hsave
  have hroot := hrep.running hgoing hfirst
  obtain ⟨hfloor, verifier, heq⟩ := Core.compactCommit_eq_ok hsave
  have hkeep : ∀ {index root}, replica.core.Standing index root →
      core.Sunk index root ∨ core.Standing index root := by
    intro index root hstand
    subst heq
    rcases Nat.lt_trichotomy index running.base.closedThrough with hbelow | rfl | habove
    · exact .inl (.inl hbelow)
    · exact .inl (.inr ⟨hstand.positive, rfl, (hstand.agrees _ hroot).symm⟩)
    · obtain ⟨later, root', hlater, hle⟩ := hstand.covered
      have hkept : running.base.closedThrough ≤ later := Nat.le_of_lt (habove.trans_le hle)
      exact .inr
        { above := Nat.le_of_lt habove
          positive := hstand.positive
          within := htip ▸ hstand.within
          covered := ⟨later, root',
            Table.lookup_restrict_some.mpr ⟨hlater, decide_eq_true hkept⟩, hle⟩
          agrees := fun root' hget =>
            hstand.agrees root' (Table.lookup_restrict_some.mp hget).1
          yields := hstand.yields }
  subst heq
  refine
    { disciplined := hrule
      rooted := hrooted
      based := .inr ⟨running.base, List.mem_cons_self, rfl, rfl⟩
      anchored := fun _ => hrep.recalled hroot
      recalled := fun hget => hrep.recalled (Table.lookup_restrict_some.mp hget).1
      prepared := fun {index root} hmark => ?_
      marked := fun {checkpoint} hmem => ?_
      candidates := fun {index prepared} hget => ?_
      waiting := fun hmem => absurd (hrep.exclusive (by rw [hgoing]; nofun) _ hmem) nofun
      toSerial := hserial }
  · rcases hrep.prepared hmark with hsunk | ⟨hstand, hfix⟩
    · exact .inl (hsunk.of_lt hfloor)
    · rcases hkeep hstand with hsunk | hnew
      · exact .inl hsunk
      · rcases hnew.above.eq_or_lt with rfl | habove
        · exact .inl (.inr ⟨hnew.positive, rfl, (hstand.agrees _ hroot).symm⟩)
        · exact .inr ⟨hnew, hfix.of_synced.commitCompaction habove⟩
  · rcases hrep.marked (mem_of_commitCompaction hmem (by simp) rfl) with hsunk | hwait | hstand
    · exact .inl (hsunk.of_lt hfloor)
    · exact .inr (.inl hwait)
    · exact (hkeep hstand).imp_right .inr
  · rcases hrep.candidates hget with hsunk | hbid
    · exact .inl (hsunk.of_lt hfloor)
    · obtain ⟨hle, hsame⟩ := hbid.passed _ _ hroot
      rcases Nat.eq_or_lt_of_le hle with heq | habove
      · exact .inl (.inr ⟨hbid.positive, heq.symm, (hsame heq).symm⟩)
      · exact .inr
          { above := hle
            positive := hbid.positive
            within := htip ▸ hbid.within
            logged := (hbid.logged.commitCompaction habove).of_synced
            passed := fun earlier root' hago =>
              hbid.passed earlier root' (Table.lookup_restrict_some.mp hago).1 }

/-- A restart finds the floor and its root in the base, and what stands above the floor in
the markers; every marker it finds is prepared from then on. -/
theorem Held.crash (hstep : replica.step codec .crash = some next) :
    next.Held codec (history ++ next.recoveredMarks) := by
  have hacts := step_performs hstep
  have hrule := hrep.disciplined.performs hacts
  have hrooted := step_rooted hstep hrep.rooted
  cases hacts with
  | @crash core hreopen =>
  have hheaded : Headed replica.core.wal.synced := hrep.disciplined.headed.append_left
  have hundo := Core.reopen_restored hheaded hreopen
  have hempty := Core.reopen_pendingPrepares hreopen
  have hsub := Core.synced_subset_reopen hreopen
  obtain ⟨htip, hlook⟩ := Core.reopen_prepared hreopen
  have hfloor : core.floor = replica.core.floor := by
    rcases hrep.based with hzero | ⟨base, hmem, hshut, -⟩
    · by_cases hbase : ∃ base, .checkpoint base ∈ replica.core.wal.synced
      · obtain ⟨base, hmem⟩ := hbase
        have hle := hrep.disciplined.base_le (replica.core.wal.synced_subset hmem)
        rw [hundo.floor_of_base hmem]
        omega
      · rw [hundo.floor_of_none (not_exists.mp hbase), hzero]
    · exact (hundo.floor_of_base hmem).trans hshut
  have hbottom : 0 < replica.core.floor → core.floorRoot = replica.core.floorRoot := by
    intro hpos
    rcases hrep.based with hzero | ⟨base, hmem, -, hroot⟩
    · exact absurd hzero (Nat.ne_of_gt hpos)
    · exact (Core.reopen_floorRoot hheaded hreopen hmem).trans hroot
  have hbased : core.floor = 0 ∨ ∃ base, .checkpoint base ∈ core.wal.synced ∧
      base.closedThrough = core.floor ∧ base.recoveryRoot = core.floorRoot := by
    rcases hrep.based with hzero | ⟨base, hmem, hshut, -⟩
    · exact .inl (hfloor.trans hzero)
    · exact .inr ⟨base, hsub hmem, hshut.trans hfloor.symm,
        (Core.reopen_floorRoot hheaded hreopen hmem).symm⟩
  have hnone : ∀ {index prepared}, core.pendingPrepares.lookup index ≠ some prepared := by
    rw [hempty]
    exact nofun
  have hsink : ∀ {index root}, replica.core.Sunk index root → core.Sunk index root := by
    rintro index root (hbelow | ⟨hpos, rfl, rfl⟩)
    · exact .inl (hfloor ▸ hbelow)
    · exact .inr ⟨hpos, hfloor.symm, (hbottom hpos).symm⟩
  have hrise : ∀ {index root}, Core.MarkedAt replica.core.wal.synced index root →
      replica.core.floor ≤ index → 0 < index → core.Standing index root := by
    intro index root hmarker habove hpos
    have hget := hlook.mpr hmarker
    obtain ⟨checkpoint, hmem, rfl, rfl⟩ := hmarker
    exact
      { above := hfloor ▸ habove
        positive := hpos
        within := htip hmem
        covered := ⟨_, _, hget, Nat.le_refl _⟩
        agrees := fun root hnod => Option.some_inj.mp (hnod.symm.trans hget)
        yields := fun later prepared hlater => absurd hlater hnone }
  -- Where the fence was raised or not, a synced marker stands above the floor.
  have hfound : ∀ {index root}, Core.MarkedAt replica.core.wal.synced index root →
      core.Sunk index root ∨ core.Standing index root := by
    rintro index root ⟨checkpoint, hmem, rfl, rfl⟩
    have hmarker := hrise ⟨checkpoint, hmem, rfl, rfl⟩
    rcases hrep.marked (replica.core.wal.synced_subset hmem) with hsunk |
      ⟨prepared, hget, hroot⟩ | hstand
    · exact .inl (hsink hsunk)
    · rcases hrep.candidates hget with hsunk | hbid
      · exact .inl (hsink (hroot ▸ hsunk))
      · exact .inr (hmarker hbid.above hbid.positive)
    · exact .inr (hmarker hstand.above hstand.positive)
  refine
    { disciplined := hrule
      rooted := hrooted
      based := hbased
      anchored := fun hpos => ?_
      recalled := fun hget => List.mem_append_right _
        (List.mem_map.mpr ⟨_, AList.mem_lookup_iff.mp hget, rfl⟩)
      prepared := fun {index root} hmark => ?_
      marked := fun {checkpoint} hmem => ?_
      candidates := fun hget => absurd hget hnone
      waiting := nofun
      toSerial := .of_idle rfl fun hget => absurd hget hnone }
  · have hpos : 0 < replica.core.floor := hfloor ▸ hpos
    change Mark.prepared core.floor core.floorRoot ∈ _
    rw [hfloor, hbottom hpos]
    exact List.mem_append_left _ (hrep.anchored hpos)
  · have hkept : ∀ {index root}, Core.MarkedAt replica.core.wal.synced index root →
        core.Sunk index root ∨
          core.Standing index root ∧ Core.MarkedAt core.wal.synced index root :=
      fun hmarker => (hfound hmarker).imp_right fun hstand => ⟨hstand, hmarker.mono hsub⟩
    rcases List.mem_append.mp hmark with hold | hnew
    · rcases hrep.prepared hold with hsunk | ⟨-, hmarker⟩
      · exact .inl (hsink hsunk)
      · exact hkept hmarker
    · obtain ⟨entry, hentry, heq⟩ := List.mem_map.mp hnew
      cases heq
      exact hkept (hlook.mp (AList.mem_lookup_iff.mpr hentry))
  · rcases Core.mem_reopen hreopen hmem with hold | heq
    · exact (hfound ⟨checkpoint, hold, rfl, rfl⟩).imp_right .inr
    · cases heq

/-- A restored base is beyond the tip, so everything prepared before sinks behind it. -/
theorem Held.restore {checkpoint : CheckpointSeal} {core : Core}
    (hfree : replica.checkpointFree = true)
    (hmend : replica.core.restoreCheckpointBase codec checkpoint = .ok core) :
    Held codec { replica with core }
      (history ++ [.prepared checkpoint.index checkpoint.rootHash]) := by
  obtain ⟨hidle, hcalls⟩ := Bool.and_eq_true _ _ |>.mp hfree
  have hidle := Option.isNone_iff_eq_none.mp hidle
  obtain ⟨htip, hmend⟩ := seq_eq_ok.mp hmend
  obtain ⟨verifier, -, hmend⟩ := bind_eq_ok.mp hmend
  obtain ⟨retained, -, hmend⟩ := bind_eq_ok.mp hmend
  obtain ⟨verified, hredo, hmend⟩ := bind_eq_ok.mp hmend
  cases hmend
  have htip := require_eq_ok.mp htip
  have hfloor : replica.core.floor < checkpoint.index :=
    Nat.lt_of_le_of_lt hrep.rooted.floor_le_tip htip
  obtain ⟨hverified, hbase⟩ := Core.rebuildSuffix_rooted hredo
  have hrooted := hverified.rebased hbase replica.core
  have hsinks : ∀ {core : Core} {index : ℕ} {root : ValueHash}, core.floor = checkpoint.index →
      index ≤ replica.core.tip → core.Sunk index root := by
    intro core index root hcore hindex
    exact .inl (hcore ▸ Nat.lt_of_le_of_lt hindex htip)
  refine
    { disciplined := hrep.disciplined.rebase verified _ hfloor (by simp) (by simp [hidle])
      rooted := ⟨hrooted.floor_le_tip, hrooted.cleared⟩
      based := .inr ⟨_, List.mem_cons_self, rfl, rfl⟩
      anchored := fun _ => List.mem_append_right _ List.mem_cons_self
      recalled := fun {index root} hget => ?_
      prepared := fun {index root} hmark => ?_
      marked := fun {marker} hmem => ?_
      candidates := fun {index prepared} hget => ?_
      waiting := fun hmem => ?_
      toSerial := .of_idle hidle hrep.single }
  · rcases Table.of_lookup_insert hget with ⟨rfl, rfl⟩ | hold
    · exact List.mem_append_right _ List.mem_cons_self
    · exact List.mem_append_left _ (hrep.recalled (Table.lookup_restrict_some.mp hold).1)
  · left
    rcases List.mem_append.mp hmark with hold | hlast
    · rcases hrep.prepared hold with hsunk | ⟨hstand, -⟩
      · exact hsunk.of_lt hfloor
      · exact hsinks rfl hstand.within
    · cases List.mem_singleton.mp hlast
      exact .inr ⟨Nat.zero_lt_of_lt htip, rfl, rfl⟩
  · rcases hrep.marked (mem_of_commitCompaction hmem (by simp) rfl) with hsunk | hwait | hstand
    · exact .inl (hsunk.of_lt hfloor)
    · exact .inr (.inl hwait)
    · exact .inl (hsinks rfl hstand.within)
  · left
    rcases hrep.candidates hget with hsunk | hbid
    · exact hsunk.of_lt hfloor
    · exact hsinks rfl hbid.within
  · have hholds := List.all_eq_true.mp hcalls _ hmem
    cases hholds

/-- A later call waits again for an unresolved marker. -/
theorem Held.resume {index : ℕ} {prepared : PendingCheckpointPrepare}
    (hfree : replica.checkpointFree = true)
    (hget : replica.core.pendingPrepares.lookup index = some prepared) :
    Held codec { replica with pending := replica.wait (.prepare index prepared) } history := by
  obtain ⟨accepted, filed, markers, headed, base_le, fenced⟩ := hrep.disciplined
  refine { hrep with
    disciplined := ⟨accepted, filed, markers, headed, base_le, fenced⟩
    waiting := fun hmem => ?_
    toSerial := hrep.toSerial.resume hfree }
  rcases mem_wait hmem with hold | ⟨heq, rfl⟩
  · exact hrep.waiting hold
  · cases heq
    rcases hrep.candidates hget with hsunk | hbid
    · exact .inl hsunk
    · exact .inr ⟨hbid.logged, nofun⟩

end Held

variable {request : RecordRequest}

theorem mem_votedMarks {mark : Mark} (hmark : mark ∈ replica.votedMarks codec request) :
    ∃ checkpoint, mark = .voted checkpoint ∧ replica.core.decided.lookup request.slot = none ∧
      replica.core.offeredSeal codec request.proposal.hash = .ok (some checkpoint) := by
  unfold votedMarks at hmark
  split at hmark
  next hnone =>
    split at hmark
    next checkpoint hoff =>
      cases List.mem_singleton.mp hmark
      exact ⟨checkpoint, rfl, Option.isNone_iff_eq_none.mp hnone, hoff⟩
    next => cases hmark
  next => cases hmark

/-- A receipt for a seal passed the checks under the lock. -/
theorem Performs.vote_eligible {checkpoint : CheckpointSeal}
    (hacts : replica.Performs codec (.record request
      (replica.core.checkCheckpointRecordEligibility codec
        request.proposal.hash).toOption.isSome) next)
    (hnone : replica.core.decided.lookup request.slot = none)
    (hoff : replica.core.offeredSeal codec request.proposal.hash = .ok (some checkpoint)) :
    replica.core.checkCheckpointIdentity codec checkpoint = .ok () ∧
      replica.core.checkCheckpointFence checkpoint = .ok () := by
  cases hacts with
  | record hlet hjot =>
  rcases (Core.recordApply_cases hjot).2 with ⟨decided, hdec, -⟩ | ⟨-, hapt, -, -⟩
  · rw [hnone] at hdec
    cases hdec
  · unfold Core.checkpointEligibility at hapt
    unfold Core.offeredSeal at hoff
    split at hapt
    · cases hapt
    next value hvalue =>
      rw [hvalue] at hoff
      dsimp only at hoff
      obtain ⟨decoded, hcode, hapt⟩ := bind_eq_ok.mp hapt
      cases hoff.symm.trans hcode
      obtain ⟨⟨⟩, hcheck⟩ :=
        Option.isSome_iff_exists.mp (require_eq_ok.mp hapt (Option.some_ne_none _))
      have hcheck := toOption_eq_some.mp hcheck
      simp only [Core.checkCheckpointRecordEligibility, Core.offeredSeal, hvalue,
        seq_eq_ok] at hcheck
      obtain ⟨-, hcheck⟩ := hcheck
      obtain ⟨decoded, hcode, hcheck⟩ := bind_eq_ok.mp hcheck
      cases hoff.symm.trans hcode
      simp only [seq_eq_ok] at hcheck
      exact ⟨hcheck.1, hcheck.2.1⟩

/-- A vote keeps what the replica holds. -/
theorem Held.vote (hrep : replica.Held codec history) {eligible : Bool}
    (hstep : replica.step codec (.record request eligible) = some next) :
    next.Held codec (history ++ replica.votedMarks codec request) := by
  have hnext := hrep.plain hstep rfl
  refine { hnext with
    anchored := fun hpos => List.mem_append_left _ (hnext.anchored hpos)
    recalled := fun hget => List.mem_append_left _ (hnext.recalled hget)
    prepared := fun hmark => ?_ }
  rcases List.mem_append.mp hmark with hold | hlast
  · exact hnext.prepared hold
  · obtain ⟨checkpoint, heq, -⟩ := mem_votedMarks hlast
    cases heq

/-- A vote that passes the locked checks respects everything prepared before it exactly if
it keeps the root of the floor. -/
theorem Held.respects_iff (hrep : replica.Held codec history)
    (hstep : replica.step codec (.record request (replica.core.checkCheckpointRecordEligibility
      codec request.proposal.hash).toOption.isSome) = some next)
    {vote : Mark} (hvote : vote ∈ replica.votedMarks codec request) :
    (∀ mark ∈ history, mark.Respects vote) ↔ vote.KeepsFloorRoot replica.core := by
  obtain ⟨checkpoint, rfl, hnone, hoff⟩ := mem_votedMarks hvote
  obtain ⟨hname, hfence⟩ := (step_performs hstep).vote_eligible hnone hoff
  simp only [Core.checkCheckpointIdentity, seq_eq_ok, require_eq_ok] at hname
  refine ⟨fun hall heq => ?_, fun hkeeps mark hmark => ?_⟩
  · have hpos : 0 < checkpoint.index := by
      unfold Core.offeredSeal at hoff
      split at hoff
      · cases hoff
      · exact codec.decodeCheckpointSeal_pos hoff
    exact (hall _ (hrep.anchored (heq ▸ hpos))).2 heq
  cases mark with
  | voted => trivial
  | prepared index root =>
    -- The retained prefix starts at the floor, so the seal is not behind it.
    have hstay : replica.core.floor ≤ checkpoint.index := by
      by_contra hbelow
      have hhead := hname.2.1.2.2.1
      rw [hrep.rooted.cleared _ (Nat.lt_of_not_le hbelow)] at hhead
      cases hhead
    rcases hrep.prepared hmark with (hbelow | ⟨-, rfl, rfl⟩) | ⟨hstand, -⟩
    · have hlt := Nat.lt_of_lt_of_le hbelow hstay
      exact ⟨Nat.le_of_lt hlt, fun heq => absurd heq (Nat.ne_of_gt hlt)⟩
    · exact ⟨hstay, hkeeps⟩
    · obtain ⟨later, root', hlater, hle⟩ := hstand.covered
      obtain ⟨hbound, hsame⟩ := Core.checkCheckpointFence_spec hfence hlater
        (Nat.lt_of_lt_of_le hstand.positive hle)
      refine ⟨hle.trans hbound, fun heq => ?_⟩
      obtain rfl : later = index := Nat.le_antisymm (heq ▸ hbound) hle
      rw [← hsame heq.symm]
      exact hstand.agrees root' hlater

end Replica

/-- Preparations are constrained by nothing that was left earlier. -/
theorem pairwise_append_prepared {history marks : List Mark}
    (hmarks : ∀ mark ∈ marks, ∃ index root, mark = .prepared index root) :
    (history ++ marks).Pairwise Mark.Respects ↔ history.Pairwise Mark.Respects := by
  have hfree : ∀ {earlier later : Mark}, later ∈ marks → earlier.Respects later := by
    intro earlier later hlater
    obtain ⟨index, root, rfl⟩ := hmarks later hlater
    cases earlier <;> trivial
  rw [List.pairwise_append]
  refine ⟨fun hall => hall.1, fun hold => ⟨hold, ?_, fun _ _ _ hlater => hfree hlater⟩⟩
  exact List.pairwise_of_forall_mem_list fun _ _ _ hlater => hfree hlater

namespace Voter

variable {codec : Codec} {voter next : Voter} {event : VoterEvent}

/-- A section keeps what the voter holds, and leaves no votes. -/
theorem perform_held (hvoter : voter.replica.Held codec voter.history) {action : Action}
    (hstep : voter.perform codec action = some next) :
    next.replica.Held codec next.history ∧ (next.Fenced ↔ voter.Fenced) := by
  cases action with
  | record | prepare => cases hstep
  | crash =>
    obtain ⟨replica, hrep, hnext⟩ := Option.bind_eq_some_iff.mp hstep
    cases hnext
    refine ⟨hvoter.crash hrep, pairwise_append_prepared fun mark hmark => ?_⟩
    obtain ⟨entry, -, rfl⟩ := List.mem_map.mp hmark
    exact ⟨_, _, rfl⟩
  | finish position =>
    obtain ⟨replica, hrep, hnext⟩ := Option.bind_eq_some_iff.mp hstep
    cases hnext
    refine ⟨hvoter.finish hrep, pairwise_append_prepared fun mark hmark => ?_⟩
    unfold Replica.preparedMarks at hmark
    split at hmark
    · split at hmark
      · exact ⟨_, _, List.mem_singleton.mp hmark⟩
      · cases hmark
    · cases hmark
  | compactCommit =>
    obtain ⟨replica, hrep, hnext⟩ := Option.bind_eq_some_iff.mp hstep
    cases hnext
    exact ⟨hvoter.commit hrep, Iff.rfl⟩
  | stageValue | storeValue | admitRequest | stage | check | install | logDecision |
      ensureDurable | sync | cancel | compactBegin | compactFinish =>
      simp only [perform, Option.bind_eq_bind, Option.bind_eq_some_iff] at hstep
      obtain ⟨replica, hrep, ⟨⟩⟩ := hstep
      exact ⟨hvoter.plain hrep rfl, Iff.rfl⟩

/-- Every step keeps what the voter holds, and exactly the safe ones keep the votes
fenced. -/
theorem step_held (hvoter : voter.replica.Held codec voter.history)
    (hstep : voter.step codec event = some next) :
    next.replica.Held codec next.history ∧
      (next.Fenced ↔ voter.Fenced ∧ voter.Safe codec event) := by
  cases event with
  | perform =>
    obtain ⟨hheld, hfenced⟩ := perform_held hvoter hstep
    exact ⟨hheld, hfenced.trans (and_iff_left trivial).symm⟩
  | validate =>
    simp only [step] at hstep
    split at hstep
    · obtain ⟨_, -, hnext⟩ := Option.bind_eq_some_iff.mp hstep
      cases hnext
      exact ⟨hvoter, (and_iff_left trivial).symm⟩
    · cases hstep
  | record request =>
    simp only [step, record] at hstep
    split at hstep
    · obtain ⟨replica, hrep, hnext⟩ := Option.bind_eq_some_iff.mp hstep
      cases hnext
      refine ⟨hvoter.vote hrep, ?_⟩
      have hsingle : (voter.replica.votedMarks codec request).Pairwise Mark.Respects := by
        unfold Replica.votedMarks
        split
        · split
          · exact List.pairwise_singleton _ _
          · exact List.Pairwise.nil
        · exact List.Pairwise.nil
      rw [Fenced, List.pairwise_append, and_iff_right hsingle]
      refine and_congr_right fun _ =>
        ⟨fun hall vote hvote => ?_, fun hsafe mark hmark vote hvote => ?_⟩
      · exact (hvoter.respects_iff hrep hvote).mp fun mark hmark => hall mark hmark vote hvote
      · exact (hvoter.respects_iff hrep hvote).mpr (hsafe vote hvote) mark hmark
    · cases hstep
  | prepare =>
    obtain ⟨replica, hrep, hnext⟩ := Option.bind_eq_some_iff.mp hstep
    cases hnext
    exact ⟨hvoter.prepare hrep, (and_iff_left trivial).symm⟩
  | resume =>
    simp only [step, resume] at hstep
    split at hstep
    next hfree =>
      obtain ⟨prepared, hget, hnext⟩ := Option.bind_eq_some_iff.mp hstep
      cases hnext
      exact ⟨hvoter.resume hfree hget, (and_iff_left trivial).symm⟩
    next => cases hstep
  | vet =>
    obtain ⟨_, -, hnext⟩ := Option.bind_eq_some_iff.mp hstep
    cases hnext
    exact ⟨hvoter, (and_iff_left trivial).symm⟩
  | restore =>
    simp only [step, restore] at hstep
    split at hstep
    next hfree =>
      obtain ⟨core, hmend, hnext⟩ := Option.bind_eq_some_iff.mp hstep
      cases hnext
      refine ⟨hvoter.restore hfree.2.1 (toOption_eq_some.mp hmend), ?_⟩
      refine (pairwise_append_prepared fun mark hmark => ?_).trans (and_iff_left trivial).symm
      exact ⟨_, _, List.mem_singleton.mp hmark⟩
    next => cases hstep

/-- No vote of a run goes back behind what was durably prepared before it exactly if every
vote at the compaction floor is for the recovery root of the floor. -/
theorem votes_fenced_iff (codec : Codec) (options : CoreOptions) (events : List VoterEvent)
    (voter : Voter) (hrun : (initial options).run codec events = some voter) :
    voter.Fenced ↔ Guarded (step codec) (Safe codec) (initial options) events := by
  have hiff : voter.Fenced ↔ (initial options).Fenced ∧
      Guarded (step codec) (Safe codec) (initial options) events :=
    guarded_iff (fun hvoter hstep => step_held hvoter hstep) hrun
      (Replica.held_newCore codec options)
  exact hiff.trans (and_iff_right List.Pairwise.nil)

/-- A codec whose seals are named by one byte. -/
def sealing (checkpoint : Byte → CheckpointSeal) : Codec :=
  { Codec.tabled [] with
    parseCheckpointSeal := fun value =>
      match value with
      | [name] => .ok (checkpoint name)
      | _ => .error "unlisted seal" }

/-- The bytes of a named seal. -/
def sealBytes (name : Byte) : Bytes := checkpointSealMagic ++ [name]

/-- A seal of slot one, which holds the value "7"; its root is its name. -/
def firstSeal (name : Byte) : CheckpointSeal where
  configID := 1
  index := 1
  rootHash := name.val
  stateHash := 1
  prefixHash := digest [7] + 2
  nextLeaderOrder := [[65], [66], [67]]
  followingLeaderOrder := []
  membership := none
  generationAnchorHash := 0

/-- The offer of a value by the leader of the first epoch. -/
def leaderOffer (slot : ℕ) (value : Bytes) : RecordRequest where
  slot
  step := 4
  configID := 1
  reconfigurationID := 0
  proposal := ⟨highestPriority, [65], digest value, value⟩

/-- The decision that two recorders of that offer certify. -/
def leaderCertified (slot : ℕ) (value : Bytes) : Decision where
  configID := 0
  slot
  step := 4
  proposal := (leaderOffer slot value).proposal
  summaries := [[66], [67]].map fun recorder =>
    ⟨recorder, 0, 4, some (leaderOffer slot value).proposal.ref, none⟩

/-- Slot one is learnt, its checkpoint is prepared with the root "3", and the seal is
learnt at slot two. -/
def sealedEvents : List VoterEvent :=
  [.perform (.check (leaderCertified 1 [7])), .perform (.install (leaderCertified 1 [7]) 1),
    .prepare (firstSeal 3) (sealBytes 3), .perform .sync, .perform (.finish 0),
    .perform (.check (leaderCertified 2 (sealBytes 3))),
    .perform (.install (leaderCertified 2 (sealBytes 3)) 1), .perform (.logDecision 2)]

/-- The log is compacted through the checkpoint, and the process restarts. -/
def compactedEvents : List VoterEvent :=
  [.perform (.compactBegin 1 3), .perform .compactCommit, .perform .compactFinish, .perform .crash]

/-- A seal is prepared and then voted for at slot three. -/
def votingEvents (name : Byte) : List VoterEvent :=
  [.prepare (firstSeal name) (sealBytes name), .perform .sync, .perform (.finish 0),
    .perform (.admitRequest (leaderOffer 3 (sealBytes name)) none),
    .perform (.stage (leaderOffer 3 (sealBytes name))), .validate (leaderOffer 3 (sealBytes name)),
    .record (leaderOffer 3 (sealBytes name))]

/-- A voter "A" of three. -/
def firstVoter : Voter := initial (World.trio.member [65])

theorem votes_fenced_iff_reprepared : ∃ voter,
    firstVoter.run (sealing firstSeal) (sealedEvents ++ compactedEvents ++ votingEvents 3) =
        some voter ∧
      voter.history = [.prepared 1 3, .prepared 1 3, .voted (firstSeal 3)] ∧ voter.Fenced := by
  have hsafe : Guarded (step (sealing firstSeal)) (Safe (sealing firstSeal)) firstVoter
      (sealedEvents ++ compactedEvents ++ votingEvents 3) := by
    decide +kernel
  obtain ⟨voter, hrun, hhistory⟩ : ∃ voter, firstVoter.run (sealing firstSeal)
      (sealedEvents ++ compactedEvents ++ votingEvents 3) = some voter ∧
        voter.history = [.prepared 1 3, .prepared 1 3, .voted (firstSeal 3)] := by
    decide +kernel
  exact ⟨voter, hrun, hhistory, (votes_fenced_iff (sealing firstSeal) (World.trio.member [65]) _
    voter hrun).mpr hsafe⟩

/-- After a compaction dropped the marker and a restart forgot the fence, another root is
prepared and voted for at the same index. -/
theorem votes_unfenced : ∃ voter,
    firstVoter.run (sealing firstSeal) (sealedEvents ++ compactedEvents ++ votingEvents 4) =
        some voter ∧
      voter.history = [.prepared 1 3, .prepared 1 4, .voted (firstSeal 4)] ∧ ¬ voter.Fenced := by
  obtain ⟨voter, hrun, hhistory⟩ : ∃ voter, firstVoter.run (sealing firstSeal)
      (sealedEvents ++ compactedEvents ++ votingEvents 4) = some voter ∧
        voter.history = [.prepared 1 3, .prepared 1 4, .voted (firstSeal 4)] := by
    decide +kernel
  refine ⟨voter, hrun, hhistory, ?_⟩
  rw [Fenced, hhistory]
  decide

end Voter

end Rhiza.QuePaxa
