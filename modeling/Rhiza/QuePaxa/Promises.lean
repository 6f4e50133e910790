import Rhiza.QuePaxa.Durability
import Rhiza.QuePaxa.Agreement

/-! # Promises of a recorder

A recorder that answered for a slot does not forget it. Until the floor passes the
slot, the synced log has the marker of its decision or the receipt of the register
that answered, so a restarted recorder knows the decision or goes on from a register
that the answering one reaches.
-/

namespace Rhiza.QuePaxa

open Foundations

namespace ISR

variable {before after : ISR}

theorem Follows.step_le (haft : before.Follows after) : before.step ≤ after.step := by
  obtain ⟨step, proposal, rfl⟩ := haft
  change _ ≤ (before.next step proposal).step
  rw [next_step]
  exact le_max_left _ _

theorem Follows.firstCurrent_eq (haft : before.Follows after)
    (hstep : after.step = before.step) : after.firstCurrent = before.firstCurrent := by
  obtain ⟨step, proposal, rfl⟩ := haft
  change (before.next step proposal).step = _ at hstep
  change (before.next step proposal).firstCurrent = _
  rw [next_step] at hstep
  -- An offer of a later step would have moved the register on.
  rcases Nat.lt_or_ge step before.step with hlt | hge
  · rw [next_of_lt hlt]
  · rw [next_of_eq (by omega)]

theorem Reaches.step_le (hgets : before.Reaches after) : before.step ≤ after.step := by
  induction hgets with
  | refl => exact le_refl _
  | tail _ haft ih => exact ih.trans haft.step_le

theorem Reaches.firstCurrent_eq (hgets : before.Reaches after)
    (hstep : after.step = before.step) : after.firstCurrent = before.firstCurrent := by
  induction hgets with
  | refl => rfl
  | tail hpre haft ih =>
    -- Steps only grow, so the registers between are at the same step.
    have hle := Reaches.step_le hpre
    have hle' := haft.step_le
    rw [haft.firstCurrent_eq (by omega), ih (by omega)]

end ISR

/-- The register a completion will have made durable. -/
def Completion.register : Completion → Option ISR
  | .syncValue _ register => some register
  | _ => none

namespace Core

variable {codec : Codec} {core next : Core} {slot : ℕ} {decided : DecidedValue}

/-- The restart of a replica has checked the certificate of a decision: the verifier
is the replica between the scan of the log and the decision's turn in slot order. -/
def Rechecked (codec : Codec) (core : Core) (decided : DecidedValue) : Prop :=
  ∃ scanned prepared front back verifier,
    recoverEntries codec (newCore core.toCoreOptions core.wal.crash, []) core.wal.synced =
        .ok (scanned, prepared) ∧
    scanned.decidedAbove 0 = front ++ decided :: back ∧
    (if scanned.reconfigEnabled then recoverPrefix codec front scanned = .ok verifier
      else verifier = scanned) ∧
    verifier.validateDecisionForRecovery codec decided.certified true = .ok ()

theorem mem_decidedAbove {through : ℕ} (hslot : through < slot)
    (hget : core.decided.lookup slot = some decided) : decided ∈ core.decidedAbove through := by
  refine List.mem_filterMap.mpr ⟨slot, ?_, hget⟩
  refine (List.mem_insertionSort _).mpr (List.mem_filter.mpr ⟨?_, by simpa using hslot⟩)
  exact AList.mem_keys.mp (AList.lookup_isSome.mp (by simp [hget]))

/-- The replay of the prefix checks each decision when its turn comes. -/
theorem recoverPrefix_checks {front back : List DecidedValue} {value : DecidedValue}
    (hheal : recoverPrefix codec (front ++ value :: back) core = .ok next) :
    ∃ verifier, recoverPrefix codec front core = .ok verifier ∧
      verifier.validateDecisionForRecovery codec value.certified true = .ok () := by
  induction front generalizing core with
  | nil =>
    obtain ⟨hvalid, -⟩ := seq_eq_ok.mp hheal
    exact ⟨core, rfl, hvalid⟩
  | cons head rest ih =>
    obtain ⟨hvalid, hheal⟩ := seq_eq_ok.mp hheal
    split at hheal
    · rename_i hslot
      obtain ⟨verifier, hfront, hvet⟩ := ih hheal
      refine ⟨verifier, seq_eq_ok.mpr ⟨hvalid, ?_⟩, hvet⟩
      rwa [if_pos hslot]
    · rename_i hslot
      obtain ⟨middle, hnext, hrest⟩ := bind_eq_ok.mp hheal
      obtain ⟨verifier, hfront, hvet⟩ := ih hrest
      refine ⟨verifier, seq_eq_ok.mpr ⟨hvalid, ?_⟩, hvet⟩
      rw [if_neg hslot]
      exact bind_eq_ok.mpr ⟨middle, hnext, hfront⟩

/-- Every decision of a restarted replica was checked by the restart. -/
theorem reopen_rechecked (hopen : core.reopen codec = .ok next)
    (hslot : 0 < slot) (hget : next.decided.lookup slot = some decided) :
    core.Rechecked codec decided := by
  obtain ⟨scanned, prepared, decisions, hscan, hpicks, _, _, _, rfl, -, -⟩ := reopen_eq_ok hopen
  have hscanned : scanned.decided.lookup slot = some decided := by
    obtain ⟨_, _, _, _, _, _, _, rfl⟩ := recoverDecisions_advances hpicks
    exact hget
  obtain ⟨front, back, hsplit⟩ := List.append_of_mem (mem_decidedAbove hslot hscanned)
  unfold recoverDecisions at hpicks
  split at hpicks
  · rename_i henabled
    rw [hsplit] at hpicks
    obtain ⟨verifier, hfront, hvet⟩ := recoverPrefix_checks hpicks
    exact ⟨scanned, prepared, front, back, verifier, hscan, hsplit, by rwa [if_pos henabled],
      hvet⟩
  · rename_i hfixed
    obtain ⟨hall, -⟩ := seq_eq_ok.mp hpicks
    refine ⟨scanned, prepared, front, back, scanned, hscan, hsplit, by rw [if_neg hfixed], ?_⟩
    exact requireAll_eq_ok.mp hall decided (mem_decidedAbove hslot hscanned)

end Core

namespace Replica

variable {codec : Codec} {replica next : Replica} {action : Action} {slot : ℕ}
  {answered : Option ISR}

/-- An answer for a slot is upheld: the floor has passed the slot, or the synced log
has the marker of its decision or the receipt of the register that answered. -/
def Upholds (replica : Replica) (slot : ℕ) (answered : Option ISR) : Prop :=
  slot ≤ replica.core.floor ∨ Marked slot replica.core.wal.synced ∨
    ∃ register ∈ answered, Receipted slot register replica.core.wal.synced

theorem Upholds.mono (hobey : replica.Upholds slot answered)
    (hfloor : replica.core.floor ≤ next.core.floor)
    (hsync : replica.core.wal.synced ⊆ next.core.wal.synced) : next.Upholds slot answered := by
  rcases hobey with hle | hmark | ⟨register, hreg, hstamp⟩
  · exact .inl (hle.trans hfloor)
  · exact .inr (.inl (hmark.mono hsync))
  · exact .inr (.inr ⟨register, hreg, hstamp.mono hsync⟩)

/-- A call is released only when the log upholds its answer. -/
theorem Kept.upholds_of_released (hrep : replica.Kept codec) {request : RecordRequest}
    {summary : Summary} {completion : Completion} {flushed : Bool}
    (hcall : (.record request summary completion, flushed) ∈ replica.pending)
    (hlet : released replica.core (.record request summary completion, flushed) = true) :
    replica.Upholds request.slot completion.register := by
  have hrests := hrep.pending hcall
  cases completion with
  | ready => exact .inr (.inl hrests)
  | durable slot =>
    obtain rfl : slot = request.slot := hrests
    rcases of_decide_eq_true hlet with hfloor | hfix
    · exact .inl hfloor
    · exact .inr (.inl (hrep.durable hfix))
  | syncValue hash register =>
    obtain rfl : flushed = true := hlet
    exact .inr (.inr ⟨register, rfl, hrests.2⟩)
  | syncDecision =>
    obtain rfl : flushed = true := hlet
    obtain ⟨rfl, hmark⟩ := hrests
    exact .inr (.inl hmark)

/-- Every section upholds the answers given before it. -/
theorem Upholds.performs (hobey : replica.Upholds slot answered) (hrep : replica.Kept codec)
    (hacts : replica.Performs codec action next) : next.Upholds slot answered := by
  have hdid := hacts.changes
  cases hacts with
  | @compactCommit running core hgoing hbar hfirst hsave =>
    obtain ⟨hfloor, verifier, rfl⟩ := Core.compactCommit_eq_ok hsave
    rcases Nat.lt_or_ge running.base.closedThrough slot with habove | hle
    · have hsub := replica.core.wal.synced_subset
      rcases hobey with hle | ⟨value, hmem, rfl⟩ | ⟨register, hreg, hash, flag, hmem⟩
      · exact absurd (hle.trans_lt (hfloor.trans habove)) (lt_irrefl _)
      · refine .inr (.inl ⟨value, ?_, rfl⟩)
        exact WAL.mem_commitCompaction_of_above (hsub hmem) rfl habove
      · refine .inr (.inr ⟨register, hreg, hash, flag, ?_⟩)
        exact WAL.mem_commitCompaction_of_above (hsub hmem) rfl habove
    · exact .inl hle
  | @crash core hopen =>
    exact hobey.mono (hrep.floor_le_reopen hopen) (Core.synced_subset_reopen hopen)
  | _ =>
    have hdid := hdid nofun nofun
    exact hobey.mono hdid.bounds_eq.2.1.ge hdid.adds.synced_subset

/-- What a run keeps of an answer. -/
structure Keeping (codec : Codec) (slot : ℕ) (answered : Option ISR) (replica : Replica) :
    Prop where
  kept : replica.Kept codec
  upholds : replica.Upholds slot answered

theorem Keeping.run (hrep : replica.Keeping codec slot answered) {actions : List Action}
    (hrun : replica.run codec actions = some next) : next.Keeping codec slot answered := by
  have hstep : ∀ {replica action next}, Keeping codec slot answered replica → True →
      step codec replica action = some next → Keeping codec slot answered next :=
    fun hrep _ hstep => ⟨hrep.kept.performs (step_performs hstep),
      hrep.upholds.performs hrep.kept (step_performs hstep)⟩
  exact (guarded_of_forall (fun _ _ => trivial) replica).invariant hstep hrun hrep

/-- A restart finds the decision or a register that the answering one reaches. -/
theorem Keeping.reopen (hrep : replica.Keeping codec slot answered) {core : Core}
    (hfloor : replica.core.floor < slot) (hopen : replica.core.reopen codec = .ok core) :
    (∃ decided, core.decided.lookup slot = some decided) ∨
      ∃ register recovered, answered = some register ∧
        core.recorders.lookup slot = some recovered ∧ register.Reaches recovered := by
  have hrule := hrep.kept.disciplined
  have hmend := Core.reopen_restored hrule.headed.append_left hopen
  cases hdec : core.decided.lookup slot with
  | some decided => exact .inl ⟨decided, rfl⟩
  | none =>
    refine .inr ?_
    rcases hrep.upholds with hle | ⟨value, hmem, rfl⟩ | ⟨register, hreg, hstamp⟩
    · exact absurd hle (Nat.not_le.mpr hfloor)
    · -- A marker in the synced log would have been replayed.
      have hfiled := hrule.markers (replica.core.wal.synced_subset hmem)
      obtain ⟨decided, hget, -⟩ := hmend.decided_of_mem hmem
      rw [hfiled.certified_slot, hdec] at hget
      cases hget
    · have hmem := hstamp.mem_registers
      obtain ⟨last, hlast⟩ := Option.ne_none_iff_exists'.mp
        (mt List.getLast?_eq_none_iff.mp (List.ne_nil_of_mem hmem))
      refine ⟨register, last, hreg, ?_, ?_⟩
      · exact (hmend.register_of_undecided (by omega) hdec).trans hlast
      · refine reaches_lastReceipt ?_ hmem hlast
        refine (hrep.kept.chained slot).sublist (List.Sublist.filterMap _ ?_)
        exact List.sublist_append_left _ _

/-- Promises survive crashes: after a record call has returned a summary, whatever the
replica does, a restart above whose floor the slot lies finds the slot decided, with
a certificate that the restart checked, or finds a register that the answering one
reaches by further records, so that its step has not regressed and the first proposal
of an unchanged step is the same. -/
theorem returned_summary_survives (codec : Codec) (options : CoreOptions)
    (before after : List Action) (replica middle last : Replica) (core : Core)
    (hbefore : (opened (newCore options ⟨[], []⟩)).run codec before = some replica)
    (index : ℕ) (request : RecordRequest) (summary : Summary) (completion : Completion)
    (flushed : Bool)
    (hcall : replica.pending[index]? = some (.record request summary completion, flushed))
    (hreturn : replica.step codec (.finish index) = some middle)
    (hafter : middle.run codec after = some last) (hfloor : last.core.floor < request.slot)
    (hreopen : last.core.reopen codec = .ok core) :
    (∃ decided, core.decided.lookup request.slot = some decided ∧
        last.core.Rechecked codec decided) ∨
      ∃ hash register recovered, completion = .syncValue hash register ∧ summary.Shows register ∧
        core.recorders.lookup request.slot = some recovered ∧ register.Reaches recovered ∧
        register.step ≤ recovered.step ∧
        (recovered.step = register.step → recovered.firstCurrent = register.firstCurrent) := by
  have hreplica := (kept_newCore codec options).run hbefore
  have hmem := List.mem_of_getElem? hcall
  have hperforms := step_performs hreturn
  have hmiddle : middle.Keeping codec request.slot completion.register := by
    refine ⟨hreplica.performs hperforms, ?_⟩
    cases hperforms with
    | finish hcall' hreleased =>
      cases hcall'.symm.trans hcall
      exact (hreplica.upholds_of_released hmem hreleased).performs hreplica
        (step_performs hreturn)
  rcases (hmiddle.run hafter).reopen hfloor hreopen with ⟨decided, hlookup⟩ |
      ⟨register, recovered, hregister, hlookup, hreaches⟩
  · exact .inl ⟨decided, hlookup, Core.reopen_rechecked hreopen (by omega) hlookup⟩
  · -- The call answered from its register, so the summary shows that register.
    cases completion with
    | syncValue hash state =>
      obtain rfl : state = register := Option.some_inj.mp hregister
      have hshows : summary.Shows state := (hreplica.pending hmem).1
      exact .inr ⟨hash, state, recovered, rfl, hshows, hlookup, hreaches, hreaches.step_le,
        hreaches.firstCurrent_eq⟩
    | ready | durable | syncDecision => cases hregister

/-- A recorder answers the leader's offer, and crashes with a second record unsynced. -/
def answeringRun : List Action :=
  [.admitRequest (World.leaderRequest [7]) none, .stage (World.leaderRequest [7]),
    .record (World.leaderRequest [7]) true, .sync]

theorem returned_summary_survives_answeringRun : ∃ core : Core,
    ((opened (newCore (World.trio.member [66]) ⟨[], []⟩)).run (Codec.tabled [])
      (answeringRun ++ [.finish 0, .record (World.leaderRequest [7]) true])).bind
        (fun last => (last.core.reopen (Codec.tabled [])).toOption) = some core ∧
      ((∃ decided, core.decided.lookup 1 = some decided) ∨
        ∃ recovered, core.recorders.lookup 1 = some recovered ∧ 4 ≤ recovered.step) := by
  obtain ⟨replica, hbefore, hcall, middle, hreturn, last, hafter, hfloor, core, hreopen, -⟩ :
      ∃ replica, (opened (newCore (World.trio.member [66]) ⟨[], []⟩)).run
          (Codec.tabled []) answeringRun = some replica ∧
        replica.pending[0]? = some (.record (World.leaderRequest [7])
            (World.leaderSummary [66] [7]) (.syncValue (digest [7])
              ⟨4, some (World.leaderRequest [7]).proposal.ref,
                some (World.leaderRequest [7]).proposal.ref, none⟩), true) ∧
        ∃ middle, replica.step (Codec.tabled []) (.finish 0) = some middle ∧
          ∃ last, middle.run (Codec.tabled []) [.record (World.leaderRequest [7]) true] =
              some last ∧
            last.core.floor < 1 ∧
            ∃ core, (last.core.reopen (Codec.tabled [])).toOption = some core ∧ True := by
    decide +kernel
  refine ⟨core, ?_, ?_⟩
  · have hrun : (opened (newCore (World.trio.member [66]) ⟨[], []⟩)).run
        (Codec.tabled []) (answeringRun ++ [.finish 0, .record (World.leaderRequest [7]) true]) =
          some last :=
      runFrom_append.mpr ⟨replica, hbefore, runFrom_cons.mpr ⟨middle, hreturn, hafter⟩⟩
    rw [hrun]
    exact hreopen
  · rcases returned_summary_survives (Codec.tabled []) (World.trio.member [66])
        answeringRun [.record (World.leaderRequest [7]) true] replica middle last core hbefore 0
        (World.leaderRequest [7]) (World.leaderSummary [66] [7]) _ true hcall hreturn hafter hfloor
        (toOption_eq_some.mp hreopen) with
      ⟨decided, hlookup, -⟩ | ⟨hash, register, recovered, heq, -, hlookup, -, hle, -⟩
    · exact .inl ⟨decided, hlookup⟩
    · cases heq
      exact .inr ⟨recovered, hlookup, hle⟩

end Replica

end Rhiza.QuePaxa
