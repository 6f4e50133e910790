import Rhiza.QuePaxa.Sections

/-! # Sections and the log

The inversion of a section of a replica, and what the sections do to the log. Apart
from the switch of a compaction and a restart, a section only adds entries behind
those that are there, and what was synced stays synced.
-/

namespace Rhiza.QuePaxa

open Foundations

namespace Replica

/-- The sections a replica can run, with what they check and what they leave. -/
inductive Performs (codec : Codec) (replica : Replica) : Action → Replica → Prop
  | stageValue {hash value core} (hstage : replica.core.stageValue codec hash value = .ok core) :
      Performs codec replica (.stageValue hash value) { replica with core }
  | storeValue {hash value core} (hstage : replica.core.stageValue codec hash value = .ok core) :
      Performs codec replica (.storeValue hash value)
        { replica with core, pending := replica.wait (.storeValue hash) }
  | admitRequest {request admission}
      (haccepts : replica.core.recordAdmission codec request admission = .ok ()) :
      Performs codec replica (.admitRequest request admission)
        { replica with admitted := request :: replica.admitted }
  | stage {request core} (hlet : request ∈ replica.admitted)
      (hstage : replica.core.recordStage codec request = .ok core) :
      Performs codec replica (.stage request) { replica with core }
  | record {request eligible core summary completion} (hlet : request ∈ replica.admitted)
      (hjot : replica.core.recordApply codec request eligible =
        .ok (core, summary, completion)) :
      Performs codec replica (.record request eligible)
        { replica with core, pending := replica.wait (.record request summary completion) }
  | check {decision configID} (hcheck : replica.core.acceptCheck codec decision = .ok configID) :
      Performs codec replica (.check decision)
        { replica with checked := (decision, configID) :: replica.checked }
  | install {decision configID} (hvet : (decision, configID) ∈ replica.checked) :
      Performs codec replica (.install decision configID)
        { replica with
          core := (replica.core.acceptInstall codec decision configID).1
          checked := replica.checked.erase (decision, configID) }
  | logDecision {slot decided} (hdec : replica.core.decided.lookup slot = some decided) :
      Performs codec replica (.logDecision slot)
        { replica with core := replica.core.logDecision decided }
  | ensureDurable {slot core slots}
      (hadd : replica.core.ensureDurableAppend codec slot = (core, .ok (some slots))) :
      Performs codec replica (.ensureDurable slot)
        { replica with core, pending := replica.wait (.ensureDurable slots) }
  | ensured {slot core result}
      (hadd : replica.core.ensureDurableAppend codec slot = (core, result)) :
      Performs codec replica (.ensureDurable slot) { replica with core }
  | prepare {checkpoint payload eligible core prepared} (hidle : replica.compaction = none)
      (hmade : replica.core.prepareAppend codec checkpoint payload eligible =
        .ok (core, prepared)) :
      Performs codec replica (.prepare checkpoint payload eligible)
        { replica with core, pending := replica.wait (.prepare checkpoint.index prepared) }
  | sync :
      Performs codec replica .sync
        { replica with
          core := { replica.core with wal := replica.core.wal.sync }
          pending := replica.pending.map fun call => (call.1, true) }
  | finish {index call} (hcall : replica.pending[index]? = some call)
      (hgone : released replica.core call = true) :
      Performs codec replica (.finish index)
        { replica with
          core := complete replica.core call.1
          pending := replica.pending.eraseIdx index }
  | cancel {index} :
      Performs codec replica (.cancel index)
        { replica with pending := replica.pending.eraseIdx index }
  | compactBegin {through recoveryRoot core running} (hidle : replica.compaction = none)
      (hbar : replica.barrier = true)
      (hfree : replica.pending.all (!·.1.holdsCheckpoint) = true)
      (hbegin : replica.core.compactBegin codec through recoveryRoot = .ok (core, running)) :
      Performs codec replica (.compactBegin through recoveryRoot)
        { replica with core, compaction := some running }
  | compactCommit {running core} (hgoing : replica.compaction = some running)
      (hbar : replica.barrier = true) (hfirst : running.committed = false)
      (hsave : replica.core.compactCommit codec running = .ok core) :
      Performs codec replica .compactCommit
        { replica with core, compaction := some { running with committed := true } }
  | compactFinish :
      Performs codec replica .compactFinish
        { replica with core := replica.core.finishCompaction, compaction := none }
  | crash {core} (hopen : replica.core.reopen codec = .ok core) :
      Performs codec replica .crash (opened core)

variable {codec : Codec} {replica next : Replica} {action : Action}

theorem step_performs (hstep : replica.step codec action = some next) :
    replica.Performs codec action next := by
  cases action <;> simp only [step, Option.bind_eq_bind, Option.bind_eq_some_iff, toOption_eq_some,
    Option.ite_none_right_eq_some, Option.some.injEq, Option.isNone_iff_eq_none] at hstep
  case stageValue =>
    obtain ⟨core, hstage, rfl⟩ := hstep
    exact .stageValue hstage
  case storeValue =>
    obtain ⟨core, hstage, rfl⟩ := hstep
    exact .storeValue hstage
  case admitRequest =>
    obtain ⟨⟨⟩, haccepts, rfl⟩ := hstep
    exact .admitRequest haccepts
  case stage =>
    obtain ⟨hlet, core, hstage, rfl⟩ := hstep
    exact .stage hlet hstage
  case record =>
    obtain ⟨hlet, ⟨core, summary, completion⟩, hjot, rfl⟩ := hstep
    exact .record hlet hjot
  case check =>
    obtain ⟨configID, hcheck, rfl⟩ := hstep
    exact .check hcheck
  case install =>
    obtain ⟨hvet, rfl⟩ := hstep
    exact .install hvet
  case logDecision =>
    obtain ⟨decided, hdec, rfl⟩ := hstep
    exact .logDecision hdec
  case ensureDurable =>
    split at hstep
    · cases hstep
      exact .ensureDurable ‹_›
    · cases hstep
      exact .ensured ‹_›
  case prepare =>
    obtain ⟨⟨hidle, -⟩, ⟨core, prepared⟩, hmade, rfl⟩ := hstep
    exact .prepare hidle hmade
  case sync =>
    cases hstep
    exact .sync
  case finish =>
    obtain ⟨call, hcall, hgone, rfl⟩ := hstep
    exact .finish hcall hgone
  case cancel =>
    cases hstep
    exact .cancel
  case compactBegin =>
    obtain ⟨⟨hidle, hbar, hfree⟩, ⟨core, running⟩, hbegin, rfl⟩ := hstep
    exact .compactBegin hidle hbar hfree hbegin
  case compactCommit =>
    obtain ⟨running, hgoing, ⟨hbar, hfirst⟩, core, hsave, rfl⟩ := hstep
    exact .compactCommit hgoing hbar hfirst hsave
  case compactFinish =>
    cases hstep
    exact .compactFinish
  case crash =>
    obtain ⟨core, hopen, rfl⟩ := hstep
    exact .crash hopen

end Replica

namespace WAL

/-- Allowed entries were added behind the others, and what was synced stays synced. -/
def Adds (allowed : Entry → Prop) (wal next : WAL) : Prop :=
  ∃ added, (∀ entry ∈ added, allowed entry) ∧ next.entries = wal.entries ++ added ∧
    wal.synced <+: next.synced

variable {allowed allowed' : Entry → Prop} {wal middle next : WAL}

theorem Adds.refl (wal : WAL) : wal.Adds allowed wal :=
  ⟨[], nofun, (List.append_nil _).symm, List.prefix_rfl⟩

theorem Adds.trans (hleft : wal.Adds allowed middle) (hright : middle.Adds allowed next) :
    wal.Adds allowed next := by
  obtain ⟨left, hallow, hlist, hsync⟩ := hleft
  obtain ⟨right, hallow', hlist', hsync'⟩ := hright
  refine ⟨left ++ right, ?_, ?_, hsync.trans hsync'⟩
  · intro entry hentry
    rcases List.mem_append.mp hentry with hentry | hentry
    · exact hallow entry hentry
    · exact hallow' entry hentry
  · rw [hlist', hlist, List.append_assoc]

theorem adds_appendAll (wal : WAL) {entries : List Entry}
    (hlist : ∀ entry ∈ entries, allowed entry) : wal.Adds allowed (wal.appendAll entries) :=
  ⟨entries, hlist, wal.entries_appendAll entries, List.prefix_rfl⟩

theorem adds_append (wal : WAL) {entry : Entry} (hentry : allowed entry) :
    wal.Adds allowed (wal.append entry) :=
  wal.adds_appendAll (by simpa using hentry)

theorem adds_sync (wal : WAL) : wal.Adds allowed wal.sync :=
  ⟨[], nofun, by simp, List.prefix_append _ _⟩

theorem Adds.synced_subset (hadds : wal.Adds allowed next) : wal.synced ⊆ next.synced :=
  hadds.choose_spec.2.2.subset

theorem Adds.entries_subset (hadds : wal.Adds allowed next) : wal.entries ⊆ next.entries := by
  obtain ⟨added, -, hlist, -⟩ := hadds
  rw [hlist]
  exact List.subset_append_left _ _

end WAL

namespace Core

variable {codec : Codec} {core next : Core} {running : RunningCompaction}

theorem compactBegin_eq_ok {through : ℕ} {recoveryRoot : ValueHash}
    (hbegin : core.compactBegin codec through recoveryRoot = .ok (next, running)) :
    next = { core with
        wal := core.wal.sync
        compactionValues := some (running.retained.keys ++ core.loggedHashes through).toFinset } ∧
      core.floor < through ∧
      core.liveProposalValuesAbove codec through = .ok running.retained ∧
      (∃ checkpoint, core.sealedCheckpoint through recoveryRoot = .ok checkpoint) ∧
      core.checkpointLeaderOrders codec through =
        .ok (running.base.nextLeaderOrder, running.base.followingLeaderOrder) ∧
      running.base.leaderEpoch = core.leaderEpochKey (through + 1) ∧
      running.base.closedThrough = through ∧ running.base.recoveryRoot = recoveryRoot ∧
      running.fence = core.wal.entries.length := by
  simp only [compactBegin, seq_eq_ok, require_eq_ok] at hbegin
  obtain ⟨-, hrange, hbegin⟩ := hbegin
  obtain ⟨checkpoint, hseal, hbegin⟩ := bind_eq_ok.mp hbegin
  obtain ⟨-, hbegin⟩ := seq_eq_ok.mp hbegin
  obtain ⟨⟨order, following⟩, horders, hbegin⟩ := bind_eq_ok.mp hbegin
  obtain ⟨membership, -, hbegin⟩ := bind_eq_ok.mp hbegin
  obtain ⟨retained, hstay, hbegin⟩ := bind_eq_ok.mp hbegin
  obtain ⟨verifier, -, hbegin⟩ := bind_eq_ok.mp hbegin
  cases hbegin
  exact ⟨rfl, hrange.1, hstay, ⟨checkpoint, hseal⟩, horders, rfl, rfl, rfl, rfl⟩

theorem compactCommit_eq_ok
    (hsave : core.compactCommit codec running = .ok next) :
    core.floor < running.base.closedThrough ∧ ∃ verifier,
      next = (installVerifiedBase { core with wal := core.wal.commitCompaction running }
        running.base verifier).pruneSlotAllocator := by
  simp only [compactCommit, seq_eq_ok, require_eq_ok] at hsave
  obtain ⟨⟨hfloor, -, -⟩, hsave⟩ := hsave
  obtain ⟨verifier, -, hsave⟩ := bind_eq_ok.mp hsave
  cases hsave
  exact ⟨hfloor, verifier, rfl⟩

end Core

namespace Replica

/-- The decision passed the checks and waits for its installation. -/
def Accepted (replica : Replica) (decision : Decision) : Prop :=
  ∃ entry ∈ replica.checked, decision = { entry.1 with configID := entry.2 }

/-- What a section other than the switch of a compaction does to the core. -/
inductive Changes (codec : Codec) (replica : Replica) : Core → Prop
  | same : Changes codec replica replica.core
  | restaged {hash value} (hvalue : replica.core.values.lookup hash = some value) :
      Changes codec replica { replica.core with
        wal := replica.core.wal.append (.proposal hash value)
        compactionValues := replica.core.compactionValues.map (insert hash) }
  | staged {hash value} (hhash : codec.sha256 value = hash)
      (hnew : replica.core.values.lookup hash = none) :
      Changes codec replica { replica.core with
        wal := replica.core.wal.append (.proposal hash value)
        values := replica.core.values.insert hash value
        compactionValues := replica.core.compactionValues.map (insert hash) }
  | marked {core} (hmarks : replica.core.Marks core) : Changes codec replica core
  | prepared {middle checkpoint prepared} (hmarks : replica.core.Marks middle)
      (hroot : prepared.root = checkpoint.rootHash) :
      Changes codec replica { middle with
        wal := middle.wal.append (.checkpointVerified checkpoint)
        pendingPrepares := middle.pendingPrepares.insert checkpoint.index prepared }
  | recorded {request} (hfloor : replica.core.floor < request.slot)
      (hunset : replica.core.decided.lookup request.slot = none)
      (hknown : (replica.core.values.lookup request.proposal.hash).isSome) :
      Changes codec replica (replica.core.answerRegister request).1
  | installed {decision core} (hyes : replica.Accepted decision)
      (hfloor : replica.core.floor < decision.slot)
      (hunset : replica.core.decided.lookup decision.slot = none)
      (hgo : (replica.core.installDecision codec decision
        (encodeCertificate decision.configID decision)).Advances core) :
      Changes codec replica core
  | advanced {core} (hgo : replica.core.Advances core) : Changes codec replica core
  | completed {call} (hcall : call ∈ replica.pending)
      (hgone : released replica.core call = true) :
      Changes codec replica (complete replica.core call.1)
  | synced {compactionValues} :
      Changes codec replica { replica.core with
        wal := replica.core.wal.sync, compactionValues }
  | released : Changes codec replica replica.core.finishCompaction

variable {codec : Codec} {replica next : Replica} {action : Action} {core : Core}

theorem changes_of_stage {hash : ValueHash} {value : Bytes} (hhash : codec.sha256 value = hash)
    (hstage : replica.core.stageValueLocked hash value = .ok core) :
    replica.Changes codec core := by
  rcases Core.stageValueLocked_cases hstage with ⟨-, -, rfl⟩ | ⟨hvalue, rfl⟩ | ⟨hnew, rfl⟩
  · exact .same
  · exact .restaged hvalue
  · exact .staged hhash hnew

theorem changes_of_record {request : RecordRequest} {eligible : Bool} {summary : Summary}
    {completion : Completion}
    (hjot : replica.core.recordApply codec request eligible = .ok (core, summary, completion)) :
    replica.Changes codec core := by
  obtain ⟨hguard, hsay⟩ := Core.recordApply_cases hjot
  rcases hsay with ⟨decided, hdec, hsay⟩ | ⟨hnone, hapt, -, hsay⟩
  · exact .marked (Core.answerDecided_spec hdec hsay).1
  · cases hsay
    exact .recorded (Core.recordGuard_floor_lt hguard) hnone
      (Core.checkpointEligibility_known hapt)

theorem Performs.changes (hacts : replica.Performs codec action next)
    (hsave : action ≠ .compactCommit) (hcrash : action ≠ .crash) :
    replica.Changes codec next.core := by
  cases hacts with
  | stageValue hstage | storeValue hstage =>
    obtain ⟨hhash, hstage⟩ := Core.stageValue_eq_ok hstage
    exact changes_of_stage hhash hstage
  | stage hlet hstage =>
    rcases Core.recordStage_cases hstage with rfl | ⟨hhash, hstage⟩
    · exact .same
    · exact changes_of_stage hhash hstage
  | record hlet hjot => exact changes_of_record hjot
  | @install decision configID hvet =>
    rcases Core.acceptInstall_cases codec replica.core decision configID with hgo |
        ⟨hfloor, hnone, hgo⟩
    · exact .advanced hgo
    · exact .installed ⟨_, hvet, rfl⟩ hfloor hnone hgo
  | logDecision hdec => exact .marked (Core.logDecision_marks hdec)
  | @ensureDurable slot core slots hadd =>
    have hmarks := Core.ensureDurableAppend_marks codec replica.core slot
    rw [hadd] at hmarks
    exact .marked hmarks
  | @ensured slot core result hadd =>
    have hmarks := Core.ensureDurableAppend_marks codec replica.core slot
    rw [hadd] at hmarks
    exact .marked hmarks
  | prepare hidle hmade =>
    obtain ⟨middle, hmarks, hroot, rfl⟩ := Core.prepareAppend_eq_ok hmade
    exact .prepared hmarks hroot
  | sync => exact .synced
  | finish hcall hgone => exact .completed (List.mem_of_getElem? hcall) hgone
  | compactBegin hidle hbar hfree hbegin =>
    obtain ⟨rfl, -⟩ := Core.compactBegin_eq_ok hbegin
    exact .synced
  | compactFinish => exact .released
  | compactCommit => exact absurd rfl hsave
  | crash => exact absurd rfl hcrash
  | admitRequest | check | cancel => exact .same

end Replica

namespace Core

variable {codec : Codec} {core next : Core}

/-- The entries a section appends: bytes that are in memory afterwards, markers of
decisions, the register it leaves at an undecided slot, and markers of pending
preparations. -/
inductive Appended (core next : Core) : Entry → Prop
  | proposal {hash value} (hvalue : next.values.lookup hash = some value) :
      Appended core next (.proposal hash value)
  | decide {slot decided} (hdec : core.decided.lookup slot = some decided) :
      Appended core next (.decide decided)
  | receipt {slot hash state reconfiguration} (hunset : core.decided.lookup slot = none)
      (hstate : next.recorders.lookup slot = some state) :
      Appended core next (.receipt slot hash state reconfiguration)
  | verified {checkpoint prepared}
      (hpend : next.pendingPrepares.lookup checkpoint.index = some prepared)
      (hroot : prepared.root = checkpoint.rootHash) :
      Appended core next (.checkpointVerified checkpoint)

theorem Marks.adds {middle : Core} (hmarks : core.Marks middle) :
    core.wal.Adds (Appended core next) middle.wal := by
  obtain ⟨marks, hdec, rfl⟩ := hmarks
  refine core.wal.adds_appendAll fun entry hentry => ?_
  obtain ⟨mark, hmark, rfl⟩ := List.mem_map.mp hentry
  obtain ⟨slot, hget⟩ := hdec mark hmark
  exact .decide hget

theorem Advances.wal_eq (hgo : core.Advances next) : next.wal = core.wal := by
  obtain ⟨_, _, _, _, _, _, _, rfl⟩ := hgo
  rfl

end Core

namespace Replica

variable {codec : Codec} {replica next : Replica} {action : Action} {core : Core}

/-- Apart from the switch of a compaction and a restart, sections only add entries. -/
theorem Changes.adds (hdid : replica.Changes codec core) :
    replica.core.wal.Adds (Core.Appended replica.core core) core.wal := by
  cases hdid with
  | same | released => exact WAL.Adds.refl _
  | restaged hvalue => exact replica.core.wal.adds_append (.proposal hvalue)
  | staged => exact replica.core.wal.adds_append (.proposal (AList.lookup_insert _))
  | marked hmarks => exact hmarks.adds
  | @prepared middle _ _ hmarks hroot =>
    exact hmarks.adds.trans (middle.wal.adds_append (.verified (AList.lookup_insert _) hroot))
  | recorded _ hunset =>
    exact replica.core.wal.adds_append (.receipt hunset (AList.lookup_insert _))
  | installed _ _ _ hgo | advanced hgo =>
    rw [hgo.wal_eq]
    exact WAL.Adds.refl _
  | @completed call _ _ =>
    obtain ⟨_, _, _, _, heq⟩ := complete_eq replica.core call.1
    rw [heq]
    exact WAL.Adds.refl _
  | synced => exact replica.core.wal.adds_sync

/-- The allocator and the floor stay. -/
theorem Changes.bounds_eq (hdid : replica.Changes codec core) :
    core.nextSlot = replica.core.nextSlot ∧ core.floor = replica.core.floor ∧
      core.vacant = replica.core.vacant := by
  cases hdid with
  | marked hmarks | prepared hmarks =>
    obtain ⟨_, -, rfl⟩ := hmarks
    exact ⟨rfl, rfl, rfl⟩
  | installed _ _ _ hgo | advanced hgo =>
    obtain ⟨_, _, _, _, _, _, _, rfl⟩ := hgo
    exact ⟨rfl, rfl, rfl⟩
  | @completed call _ _ =>
    obtain ⟨_, _, _, _, heq⟩ := complete_eq replica.core call.1
    rw [heq]
    exact ⟨rfl, rfl, rfl⟩
  | _ => exact ⟨rfl, rfl, rfl⟩

/-- Only an accepted decision is added to the decided ones. -/
theorem Changes.decided_cases (hdid : replica.Changes codec core) :
    core.decided = replica.core.decided ∨ ∃ decision, replica.Accepted decision ∧
      core.decided = (replica.core.installDecision codec decision
        (encodeCertificate decision.configID decision)).decided := by
  cases hdid with
  | marked hmarks | prepared hmarks =>
    obtain ⟨_, -, rfl⟩ := hmarks
    exact .inl rfl
  | advanced hgo =>
    obtain ⟨_, _, _, _, _, _, _, rfl⟩ := hgo
    exact .inl rfl
  | installed hyes _ _ hgo =>
    obtain ⟨_, _, _, _, _, _, _, rfl⟩ := hgo
    exact .inr ⟨_, hyes, rfl⟩
  | @completed call _ _ =>
    obtain ⟨_, _, _, _, heq⟩ := complete_eq replica.core call.1
    rw [heq]
    exact .inl rfl
  | _ => exact .inl rfl

/-- Without a crash the slot counter never goes back. -/
theorem Performs.nextSlot_le (hacts : replica.Performs codec action next)
    (hcrash : action ≠ .crash) : replica.core.nextSlot ≤ next.core.nextSlot := by
  have hdid := hacts.changes
  cases hacts with
  | crash => exact absurd rfl hcrash
  | compactCommit hgoing hbar hfirst hsave =>
    obtain ⟨-, verifier, rfl⟩ := Core.compactCommit_eq_ok hsave
    exact Nat.le_max_left _ _
  | _ => exact (hdid nofun nofun).bounds_eq.1.ge

end Replica

end Rhiza.QuePaxa
