import Mathlib.Data.List.Induction
import Rhiza.Fencing.Ledger

/-! # Completed fencing is final

Every change keeps the runs and what they prove: an identity is only completed by its log, a stop
request is given once, and from then on the identity stays. A node whose runs have all ended under a
closure therefore has no writer again.
-/

namespace Rhiza.Fencing

open Foundations

/-- The launch without its log. -/
def Identity.unbound (identity : Identity) : Identity := { identity with walIdentity := "" }

/-- What may happen to a run. -/
structure Run.Extends (run run' : Run) : Prop where
  place : run'.identity.unbound = run.identity.unbound
  wal : run.identity.walIdentity ≠ "" → run'.identity = run.identity
  stop : ∀ request, run.stop = some request →
    run'.stop = some request ∧ run'.identity = run.identity
  drain : ∀ receipt, run.drain = some receipt → run'.drain = some receipt
  exited : run.exited = true → run'.exited = true

namespace Run

theorem Extends.refl (run : Run) : run.Extends run :=
  ⟨rfl, fun _ => rfl, fun _ h => ⟨h, rfl⟩, fun _ h => h, fun h => h⟩

theorem Extends.trans {first second third : Run} (h : first.Extends second)
    (h' : second.Extends third) : first.Extends third where
  place := h'.place.trans h.place
  wal hbound := by
    have heq := h.wal hbound
    rw [← heq] at hbound ⊢
    exact h'.wal hbound
  stop request hstop := by
    obtain ⟨hstop, heq⟩ := h.stop request hstop
    obtain ⟨hstop, heq'⟩ := h'.stop request hstop
    exact ⟨hstop, heq'.trans heq⟩
  drain receipt hdrain := h'.drain receipt (h.drain receipt hdrain)
  exited hexited := h'.exited (h.exited hexited)

variable {run : Run}

theorem Extends.nodeID {run' : Run} (h : run.Extends run') :
    run'.identity.nodeID = run.identity.nodeID := by
  have hnode := congrArg Identity.nodeID h.place
  exact hnode

theorem Extends.runID {run' : Run} (h : run.Extends run') :
    run'.identity.runID = run.identity.runID := by
  have hid := congrArg Identity.runID h.place
  exact hid

theorem extends_requestStop (run : Run) (operationID requestHash : String) :
    run.Extends (run.requestStop operationID requestHash) := by
  unfold requestStop
  split
  · exact .refl run
  · rename_i hnone
    refine ⟨rfl, fun _ => rfl, fun request hstop => ?_, fun _ h => h, fun h => h⟩
    simp [hstop] at hnone

/-- The run has exited, and either has no log or drained cleanly under the stop request it was
given. -/
def Ended (run : Run) : Prop :=
  run.exited = true ∧ ∃ stop, run.stop = some stop ∧
    (run.identity.walIdentity = "" ∨
      ∃ drain, run.drain = some drain ∧ drain.request = stop ∧ drain.clean = true)

theorem ended_of_finished (h : run.finished = true) : run.Ended := by
  unfold finished at h
  cases hstop : run.stop with
  | none => rw [hstop] at h; cases h
  | some stop =>
    simp only [hstop, Bool.and_eq_true] at h
    obtain ⟨⟨-, hexited⟩, hproof⟩ := h
    refine ⟨hexited, stop, hstop, ?_⟩
    cases hnever : run.neverBoundExit with
    | some =>
      simp only [hnever, Bool.and_eq_true, decide_eq_true_eq] at hproof
      exact .inl hproof.1.1
    | none =>
      simp only [hnever, Bool.and_eq_true] at hproof
      right
      cases hdrain : run.drain with
      | none => rw [hdrain] at hproof; cases hproof.2
      | some drain =>
        simp only [hdrain, Option.any_some, Bool.and_eq_true, decide_eq_true_eq] at hproof
        exact ⟨drain, rfl, hproof.2⟩

theorem Extends.ended {run' : Run} (h : run.Extends run') (hended : run.Ended) : run'.Ended := by
  obtain ⟨hexited, stop, hstop, hproof⟩ := hended
  obtain ⟨hstop', hname⟩ := h.stop stop hstop
  refine ⟨h.exited hexited, stop, hstop', ?_⟩
  rw [hname]
  exact hproof.imp_right fun ⟨drain, hdrain, hclean⟩ => ⟨drain, h.drain drain hdrain, hclean⟩

end Run

namespace Ledger

/-- What may happen to a ledger. New runs only appear while neither the generation nor their node is
closed. -/
structure Extends (ledger next : Ledger) : Prop where
  runs : ∀ id run, ledger.runs.lookup id = some run →
    ∃ run', next.runs.lookup id = some run' ∧ run.Extends run'
  added : ∀ id run', next.runs.lookup id = some run' → ledger.runs.lookup id = none →
    run'.identity.runID = id ∧ ledger.closedBy = "" ∧
      ledger.closedNodes.lookup run'.identity.nodeID = none
  closedBy : ledger.closedBy ≠ "" → next.closedBy ≠ ""
  closedNodes : ∀ nodeID, (ledger.closedNodes.lookup nodeID).isSome →
    (next.closedNodes.lookup nodeID).isSome

theorem Extends.refl (ledger : Ledger) : ledger.Extends ledger :=
  ⟨fun _ run h => ⟨run, h, .refl run⟩, fun _ _ h hnone => by simp [h] at hnone, fun h => h,
    fun _ h => h⟩

theorem Extends.trans {first second third : Ledger} (h : first.Extends second)
    (h' : second.Extends third) : first.Extends third where
  runs id run hrun := by
    obtain ⟨run', hrun', hgrow⟩ := h.runs id run hrun
    obtain ⟨run'', hrun'', hgrow'⟩ := h'.runs id run' hrun'
    exact ⟨run'', hrun'', hgrow.trans hgrow'⟩
  added id run hrun hnone := by
    cases htwo : second.runs.lookup id with
    | some middle =>
      obtain ⟨run', hrun', hgrow⟩ := h'.runs id middle htwo
      cases hrun'.symm.trans hrun
      rw [hgrow.nodeID, hgrow.runID]
      exact h.added id middle htwo hnone
    | none =>
      obtain ⟨hkey, hopen, hnode⟩ := h'.added id run hrun htwo
      refine ⟨hkey, ?_, ?_⟩
      · by_contra hshut
        exact h.closedBy hshut hopen
      · by_contra hshut
        have hsome := h.closedNodes _ (Option.isSome_iff_ne_none.mpr hshut)
        simp [hnode] at hsome
  closedBy hshut := h'.closedBy (h.closedBy hshut)
  closedNodes nodeID hshut := h'.closedNodes nodeID (h.closedNodes nodeID hshut)

variable {ledger next : Ledger} {id : String} {run : Run}

/-- Changing one run in place. -/
theorem extends_insert {run' : Run}
    (hrun : ledger.runs.lookup id = some run) (hgrow : run.Extends run') :
    ledger.Extends { ledger with runs := ledger.runs.insert id run' } where
  runs id' old hold := by
    dsimp only
    rw [Table.lookup_insert_eq]
    split
    · rename_i heq
      cases hrun.symm.trans (heq ▸ hold)
      exact ⟨run', rfl, hgrow⟩
    · exact ⟨old, hold, .refl old⟩
  added id' new hnew hnone := by
    dsimp only at hnew
    rw [Table.lookup_insert_eq] at hnew
    split at hnew
    · rename_i heq
      rw [heq, hrun] at hnone
      cases hnone
    · rw [hnone] at hnew
      cases hnew
  closedBy hshut := hshut
  closedNodes _ hshut := hshut

/-- Changing every run in place, and closing more. -/
theorem extends_mapValues (change : Run → Run)
    (hchange : ∀ run : Run, run.Extends (change run)) (hruns : next.runs =
      ledger.runs.mapValues change)
    (hclosedBy : ledger.closedBy ≠ "" → next.closedBy ≠ "")
    (hclosedNodes : ∀ nodeID, (ledger.closedNodes.lookup nodeID).isSome →
      (next.closedNodes.lookup nodeID).isSome) : ledger.Extends next where
  runs id run hrun := by
    rw [hruns, Table.lookup_mapValues, hrun]
    exact ⟨change run, rfl, hchange run⟩
  added id run hrun hnone := by
    rw [hruns, Table.lookup_mapValues, hnone] at hrun
    cases hrun
  closedBy := hclosedBy
  closedNodes := hclosedNodes

theorem extends_closeNode (operationID requestHash : String) (ledger : Ledger) (nodeID : String) :
    ledger.Extends (ledger.closeNode operationID requestHash nodeID) := by
  refine extends_mapValues (fun run => if run.identity.nodeID = nodeID then
    run.requestStop operationID requestHash else run) (fun run => ?_) rfl (fun h => h)
    fun other hother => ?_
  · split
    · exact run.extends_requestStop operationID requestHash
    · exact .refl run
  · simp only [closeNode, Table.lookup_insert_eq]
    split
    · rfl
    · exact hother

theorem extends_foldl_closeNode (operationID requestHash : String) (nodeIDs : List String) :
    ∀ ledger : Ledger, ledger.Extends
      (nodeIDs.foldl (closeNode operationID requestHash) ledger) := by
  induction nodeIDs with
  | nil => exact fun ledger => .refl ledger
  | cons nodeID rest ih =>
    exact fun ledger => (extends_closeNode operationID requestHash ledger nodeID).trans (ih _)

variable {identity : Identity}

/-- A registration that returns nil finds its run or adds it, with nothing closed. -/
theorem register_cases (h : ledger.register identity = .ok next) :
    ledger.closedBy = "" ∧ ledger.closedNodes.lookup identity.nodeID = none ∧
      (next = ledger ∧ (∃ run, ledger.runs.lookup identity.runID = some run ∧
          run.identity = identity) ∨
        ledger.runs.lookup identity.runID = none ∧
          next = { ledger with runs := ledger.runs.insert identity.runID { identity } }) := by
  unfold register at h
  simp only [seq_eq_ok, require_eq_ok, Option.isNone_iff_eq_none] at h
  obtain ⟨-, hopen, hnode, h⟩ := h
  refine ⟨hopen, hnode, ?_⟩
  cases hrun : ledger.runs.lookup identity.runID with
  | some old =>
    simp only [hrun, seq_eq_ok, require_eq_ok] at h
    obtain ⟨⟨hold, -⟩, hnext⟩ := h
    exact .inl ⟨(Except.ok.inj hnext).symm, old, rfl, hold⟩
  | none =>
    simp only [hrun, seq_eq_ok, require_eq_ok] at h
    exact .inr ⟨rfl, (Except.ok.inj h.2).symm⟩

/-- A binding that returns nil is of a run that was not asked to stop, and agrees with the log of
every bound run of the node. -/
theorem bind_cases (h : ledger.bind identity = .ok next) :
    ∃ run, ledger.runs.lookup identity.runID = some run ∧ identity.walIdentity ≠ "" ∧
      identity.unbound = run.identity.unbound ∧ ledger.closedBy = "" ∧ run.stop = none ∧
      (run.identity.walIdentity ≠ "" → run.identity = identity) ∧
      (∀ id old, ledger.runs.lookup id = some old → old.identity.runID ≠ identity.runID →
        old.identity.nodeID = identity.nodeID → old.identity.walIdentity ≠ "" →
        old.identity.walIdentity = identity.walIdentity) ∧
      next = { ledger with runs := ledger.runs.insert identity.runID { run with identity } } := by
  unfold Ledger.bind at h
  cases hrun : ledger.runs.lookup identity.runID with
  | none => rw [hrun] at h; cases h
  | some run =>
    simp only [hrun, seq_eq_ok, require_eq_ok] at h
    obtain ⟨hwal, ⟨hplace, hsame⟩, ⟨hopen, hstop⟩, hothers, hnext⟩ := h
    refine ⟨run, rfl, hwal, ?_, hopen, hstop, ?_, ?_, (Except.ok.inj hnext).symm⟩
    · rw [← hplace]
      rfl
    · intro hbound
      rw [← hplace, hsame.resolve_left hbound]
    · intro id old hold hother hnode hbound
      have hmem : old ∈ ledger.runs.values := (Table.mem_values_iff _ _).mpr ⟨id, hold⟩
      have hcheck := List.all_eq_true.mp hothers old hmem
      simpa [hother, hnode, hbound] using hcheck

theorem extends_register (h : ledger.register identity = .ok next) : ledger.Extends next := by
  obtain ⟨hopen, hnode, hcases⟩ := register_cases h
  cases hcases with
  | inl found => exact found.1 ▸ .refl ledger
  | inr added =>
    obtain ⟨hnone, rfl⟩ := added
    refine ⟨fun id run hrun => ⟨run, ?_, .refl run⟩, fun id run hrun hvoid => ?_, fun h => h,
      fun _ h => h⟩
    · have hne : id ≠ identity.runID := by
        rintro rfl
        rw [hnone] at hrun
        cases hrun
      rw [Table.lookup_insert_eq, if_neg hne]
      exact hrun
    · dsimp only at hrun
      rcases Table.of_lookup_insert hrun with ⟨heq, rfl⟩ | hrun
      · exact ⟨heq.symm, hopen, hnode⟩
      · rw [hvoid] at hrun
        cases hrun

theorem extends_bind (h : ledger.bind identity = .ok next) : ledger.Extends next := by
  obtain ⟨run, hrun, -, hplace, -, hstop, hbound, -, rfl⟩ := bind_cases h
  refine extends_insert hrun ⟨hplace, fun hwal => (hbound hwal).symm, ?_, fun _ h => h, fun h => h⟩
  intro request hask
  rw [hstop] at hask
  cases hask

variable {operationID requestHash : String} {nodeIDs : List String} {request : StopRequest}
  {call : Call}

theorem extends_close
    (h : ledger.close operationID requestHash = .ok next) : ledger.Extends next := by
  unfold close at h
  simp only [seq_eq_ok, require_eq_ok] at h
  obtain ⟨⟨hop, -⟩, -, -, hnext⟩ := h
  cases hnext
  exact extends_mapValues _ (fun run => run.extends_requestStop operationID requestHash) rfl
    (fun _ => hop) fun _ h => h

theorem extends_closeNodes
    (h : ledger.closeNodes operationID requestHash nodeIDs = .ok next) : ledger.Extends next := by
  unfold closeNodes at h
  split at h
  · exact extends_close h
  · rw [seq_eq_ok] at h
    obtain ⟨-, h⟩ := h
    split at h
    · rw [seq_eq_ok] at h
      exact Except.ok.inj h.2 ▸ .refl ledger
    · rw [seq_eq_ok] at h
      exact Except.ok.inj h.2 ▸ extends_foldl_closeNode operationID requestHash nodeIDs ledger

/-- Runs are filed under their own id. -/
def Keyed (ledger : Ledger) : Prop :=
  ∀ id run, ledger.runs.lookup id = some run → run.identity.runID = id

theorem Extends.keyed (h : ledger.Extends next) (hkeyed : ledger.Keyed) : next.Keyed := by
  intro id run hrun
  cases hold : ledger.runs.lookup id with
  | none => exact (h.added id run hrun hold).1
  | some old =>
    obtain ⟨run', hrun', hgrow⟩ := h.runs id old hold
    cases hrun'.symm.trans hrun
    rw [hgrow.runID]
    exact hkeyed id old hold

theorem extends_recordDrain {receipt : DrainReceipt} (hkeyed : ledger.Keyed)
    (h : ledger.recordDrain receipt = .ok next) : ledger.Extends next := by
  unfold recordDrain at h
  cases hrun : ledger.runs.lookup receipt.request.identity.runID with
  | none => rw [hrun] at h; cases h
  | some run =>
    simp only [hrun, seq_eq_ok, require_eq_ok] at h
    obtain ⟨-, -, hdrain, hnext⟩ := h
    cases hnext
    have hkey : ledger.runs.lookup run.identity.runID = some run := by
      rw [hkeyed _ run hrun]
      exact hrun
    refine extends_insert hkey ⟨rfl, fun _ => rfl, fun _ h => ⟨h, rfl⟩, ?_, fun h => h⟩
    intro old hold
    rw [hold] at hdrain
    exact hdrain.resolve_left (by simp) ▸ rfl

theorem extends_recordExit
    (h : ledger.recordExit request = .ok next) : ledger.Extends next := by
  unfold recordExit at h
  cases hrun : ledger.runs.lookup request.identity.runID with
  | none => rw [hrun] at h; cases h
  | some =>
    simp only [hrun, seq_eq_ok, require_eq_ok] at h
    cases h.2
    exact extends_insert hrun ⟨rfl, fun _ => rfl, fun _ h => ⟨h, rfl⟩, fun _ h => h, fun _ => rfl⟩

theorem extends_recordNeverBoundExit
    (h : ledger.recordNeverBoundExit request = .ok next) : ledger.Extends next := by
  unfold recordNeverBoundExit at h
  cases hrun : ledger.runs.lookup request.identity.runID with
  | none => rw [hrun] at h; cases h
  | some =>
    simp only [hrun, seq_eq_ok, require_eq_ok] at h
    cases h.2.2
    exact extends_insert hrun ⟨rfl, fun _ => rfl, fun _ h => ⟨h, rfl⟩, fun _ h => h, fun _ => rfl⟩

theorem extends_apply (hkeyed : ledger.Keyed)
    (h : call.apply ledger = .ok next) : ledger.Extends next := by
  cases call with
  | register => exact extends_register h
  | bind => exact extends_bind h
  | closeNodes => exact extends_closeNodes h
  | close => exact extends_close h
  | recordDrain => exact extends_recordDrain hkeyed h
  | recordExit => exact extends_recordExit h
  | recordNeverBoundExit => exact extends_recordNeverBoundExit h

theorem extends_change (call : Call) (hkeyed : ledger.Keyed) :
    ledger.Extends (ledger.change call) := by
  unfold change
  cases h : call.apply ledger with
  | error => exact .refl ledger
  | ok => exact extends_apply hkeyed h

theorem extends_after (calls : List Call) :
    ∀ ledger : Ledger, ledger.Keyed → ledger.Extends (ledger.after calls) := by
  induction calls with
  | nil => exact fun ledger _ => .refl ledger
  | cons call rest ih =>
    intro ledger hkeyed
    have hchange := extends_change call hkeyed
    exact hchange.trans (ih _ (hchange.keyed hkeyed))

theorem keyed_fresh (sourceClusterID : String) : (fresh sourceClusterID).Keyed := by
  intro id run hrun
  simp [fresh] at hrun

theorem after_append (ledger : Ledger) (calls later : List Call) :
    ledger.after (calls ++ later) = (ledger.after calls).after later :=
  List.foldl_append

theorem accepted_append (calls later : List Call) :
    ∀ ledger : Ledger, ledger.accepted (calls ++ later) =
      ledger.accepted calls ++ (ledger.after calls).accepted later := by
  induction calls with
  | nil => exact fun _ => rfl
  | cons call rest ih =>
    intro ledger
    simp only [List.cons_append, accepted, ih, after, List.foldl_cons]
    split <;> rfl

/-- A call that returned nil did so on some ledger of the run. -/
theorem exists_of_mem_accepted (calls : List Call) :
    ∀ ledger : Ledger, call ∈ ledger.accepted calls →
      ∃ front back next, call.apply (ledger.after front) = .ok next ∧
        ledger.after calls = next.after back := by
  induction calls with
  | nil => exact fun _ h => by cases h
  | cons head rest ih =>
    intro ledger h
    have hrest : call ∈ (ledger.change head).accepted rest →
        ∃ front back next, call.apply (ledger.after front) = .ok next ∧
          ledger.after (head :: rest) = next.after back := by
      intro hmem
      obtain ⟨front, back, next, happly, hafter⟩ := ih _ hmem
      exact ⟨head :: front, back, next, happly, hafter⟩
    unfold accepted at h
    split at h
    · rename_i hok
      cases List.mem_cons.mp h with
      | inr hmem => exact hrest hmem
      | inl heq =>
        subst heq
        cases happly : call.apply ledger with
        | error => rw [happly] at hok; cases hok
        | ok next =>
          refine ⟨[], rest, next, happly, ?_⟩
          simp [after, change, happly, Except.toOption]
    · exact hrest h

variable {calls : List Call}

/-- A registered run stays, on its node. -/
theorem exists_run_of_registered
    (hkeyed : ledger.Keyed) (h : .register identity ∈ ledger.accepted calls) :
    ∃ run, (ledger.after calls).runs.lookup identity.runID = some run ∧
      run.identity.nodeID = identity.nodeID := by
  obtain ⟨front, back, next, happly, hafter⟩ := exists_of_mem_accepted calls ledger h
  have hfront := (extends_after front ledger hkeyed).keyed hkeyed
  have hnext : next.Keyed := (extends_apply hfront happly).keyed hfront
  have hrun : ∃ run, next.runs.lookup identity.runID = some run ∧ run.identity = identity := by
    obtain ⟨-, -, hcases⟩ := register_cases happly
    cases hcases with
    | inl found => exact found.1 ▸ found.2
    | inr added =>
      rw [added.2]
      exact ⟨_, AList.lookup_insert _, rfl⟩
  obtain ⟨run, hrun, hname⟩ := hrun
  obtain ⟨run', hrun', hgrow⟩ := (extends_after back next hnext).runs _ run hrun
  exact ⟨run', hafter ▸ hrun', hname ▸ hgrow.nodeID⟩

/-- A bound run keeps its identity. -/
theorem exists_run_of_bound (hkeyed : ledger.Keyed) (h : .bind identity ∈ ledger.accepted calls) :
    identity.walIdentity ≠ "" ∧ ∃ run,
      (ledger.after calls).runs.lookup identity.runID = some run ∧ run.identity = identity := by
  obtain ⟨front, back, next, happly, hafter⟩ := exists_of_mem_accepted calls ledger h
  have hfront := (extends_after front ledger hkeyed).keyed hkeyed
  have hnext : next.Keyed := (extends_apply hfront happly).keyed hfront
  obtain ⟨run, -, hwal, -, -, -, -, -, rfl⟩ := bind_cases happly
  have hbound : (((ledger.after front).runs.insert identity.runID { run with identity }).lookup
      identity.runID) = some { run with identity } := AList.lookup_insert _
  obtain ⟨run', hrun', hgrow⟩ := (extends_after back _ hnext).runs _ _ hbound
  exact ⟨hwal, run', hafter ▸ hrun', hgrow.wal hwal⟩

/-- Bound later, a run agrees with every run of its node that is bound already. -/
theorem bind_agrees_earlier (hkeyed : ledger.Keyed)
    {earlier later : Identity} (hnode : earlier.nodeID = later.nodeID)
    (hago : .bind earlier ∈ ledger.accepted calls)
    (hlater : (ledger.after calls).bind later = .ok next) :
    earlier.walIdentity = later.walIdentity := by
  obtain ⟨hwal, run, hrun, hname⟩ := exists_run_of_bound hkeyed hago
  obtain ⟨run', hrun', -, -, -, -, hagain, hothers, -⟩ := bind_cases hlater
  subst hname
  by_cases hid : run.identity.runID = later.runID
  · rw [hid, hrun'] at hrun
    cases hrun
    rw [hagain hwal]
  · exact hothers _ run hrun hid hnode hwal

theorem mem_accepted_singleton {last : Call}
    (h : call ∈ ledger.accepted [last]) : call = last ∧ ∃ next, last.apply ledger = .ok next := by
  simp only [accepted] at h
  split at h
  · rename_i hok
    refine ⟨List.mem_singleton.mp h, ?_⟩
    cases happly : last.apply ledger with
    | error => rw [happly] at hok; cases hok
    | ok next => exact ⟨next, rfl⟩
  · cases h

/-- Bindings of one node are to one log. -/
theorem bind_agrees (hkeyed : ledger.Keyed)
    {first second : Identity} (hnode : first.nodeID = second.nodeID)
    (hfirst : .bind first ∈ ledger.accepted calls) (htwo : .bind second ∈ ledger.accepted calls) :
    first.walIdentity = second.walIdentity := by
  induction calls using List.reverseRecOn with
  | nil => cases hfirst
  | append_singleton calls last ih =>
    rw [accepted_append, List.mem_append] at hfirst htwo
    cases hfirst with
    | inl hfirst =>
      cases htwo with
      | inl htwo => exact ih hfirst htwo
      | inr htwo =>
        obtain ⟨rfl, next, happly⟩ := mem_accepted_singleton htwo
        exact bind_agrees_earlier hkeyed hnode hfirst happly
    | inr hfirst =>
      obtain ⟨rfl, next, happly⟩ := mem_accepted_singleton hfirst
      cases htwo with
      | inl htwo => exact (bind_agrees_earlier hkeyed hnode.symm htwo happly).symm
      | inr htwo =>
        cases (mem_accepted_singleton htwo).1
        rfl

/-- What a completed ledger says of the runs of the nodes, and of their closure. -/
theorem completeNodes_cases {podUIDs : List String}
    (h : ledger.completeNodes operationID requestHash nodeIDs podUIDs = true) :
    (∀ id run, ledger.runs.lookup id = some run → covers nodeIDs run.identity.nodeID = true →
      run.finished = true) ∧
    ∀ nodeID, covers nodeIDs nodeID = true →
      ledger.closedBy ≠ "" ∨ (ledger.closedNodes.lookup nodeID).isSome := by
  simp only [completeNodes, Bool.and_eq_true, decide_eq_true_eq] at h
  obtain ⟨⟨⟨⟨⟨⟨⟨hop, -⟩, -⟩, hshut⟩, hgen⟩, hfind⟩, -⟩, -⟩ := h
  constructor
  · intro id run hrun hlids
    have hmem : run ∈ ledger.runs.values := (Table.mem_values_iff _ _).mpr ⟨id, hrun⟩
    exact List.all_eq_true.mp hfind run (List.mem_filter.mpr ⟨hmem, hlids⟩)
  · intro nodeID hlids
    cases nodeIDs with
    | nil =>
      left
      simp at hgen
      rw [hgen.1]
      exact hop
    | cons head rest =>
      right
      have hmem : nodeID ∈ head :: rest := by simpa [covers] using hlids
      have hclosure := List.all_eq_true.mp hshut nodeID hmem
      unfold closedFor at hclosure
      cases hget : ledger.closedNodes.lookup nodeID with
      | none => rw [hget] at hclosure; cases hclosure
      | some => rfl

/-- The runs of nodes that are closed and all ended stay as they are. -/
theorem ended_of_complete {complete : Ledger} {podUIDs : List String} (hkeyed : complete.Keyed)
    (h : complete.completeNodes operationID requestHash nodeIDs podUIDs = true) (later : List Call)
    (hrun : (complete.after later).runs.lookup id = some run)
    (hlids : covers nodeIDs run.identity.nodeID = true) :
    ∃ old : Run, old.Extends run ∧ old.Ended := by
  obtain ⟨hfind, hshut⟩ := completeNodes_cases h
  have hgrow := extends_after later complete hkeyed
  cases hold : complete.runs.lookup id with
  | none =>
    obtain ⟨-, hopen, hnode⟩ := hgrow.added id run hrun hold
    cases hshut _ hlids with
    | inl hgen => exact absurd hopen hgen
    | inr hsome => rw [hnode] at hsome; cases hsome
  | some old =>
    obtain ⟨run', hrun', hrunExtends⟩ := hgrow.runs id old hold
    cases hrun'.symm.trans hrun
    rw [hrunExtends.nodeID] at hlids
    exact ⟨old, hrunExtends, Run.ended_of_finished (hfind id old hold hlids)⟩

/-- Once the fencing of some nodes is complete, every run ever registered for them has exited,
without a log or drained cleanly under its stop request, none is registered or bound again, and all
their bound runs used one log. -/
theorem completeNodes_final (sourceClusterID operationID requestHash : String)
    (nodeIDs podUIDs : List String) (calls later : List Call)
    (h : ((fresh sourceClusterID).after calls).completeNodes operationID requestHash nodeIDs
      podUIDs =
      true) :
    let complete := (fresh sourceClusterID).after calls
    let history := (fresh sourceClusterID).accepted (calls ++ later)
    (∀ identity, .register identity ∈ history → covers nodeIDs identity.nodeID = true →
      ∃ run, (complete.after later).runs.lookup identity.runID = some run ∧
        run.identity.nodeID = identity.nodeID ∧ run.exited = true ∧
        ∃ stop, run.stop = some stop ∧
          ((∀ bound, .bind bound ∈ history → bound.runID ≠ identity.runID) ∨
            ∃ drain, run.drain = some drain ∧ drain.request = stop ∧ drain.clean = true)) ∧
    (∀ identity, covers nodeIDs identity.nodeID = true →
      .register identity ∉ complete.accepted later ∧ .bind identity ∉ complete.accepted later) ∧
    ∀ first second, .bind first ∈ history → .bind second ∈ history →
      first.nodeID = second.nodeID → first.walIdentity = second.walIdentity := by
  intro complete history
  have hfresh := keyed_fresh sourceClusterID
  have hkeyed : complete.Keyed := (extends_after calls _ hfresh).keyed hfresh
  have hafter : (fresh sourceClusterID).after (calls ++ later) = complete.after later :=
    after_append _ calls later
  refine ⟨?_, ?_, fun first second hfirst hsecond hnode => bind_agrees hfresh hnode hfirst hsecond⟩
  · intro identity hregistered hcovers
    obtain ⟨run, hrun, hnode⟩ := exists_run_of_registered hfresh hregistered
    rw [hafter] at hrun
    obtain ⟨old, hextends, hended⟩ := ended_of_complete hkeyed h later hrun (hnode ▸ hcovers)
    obtain ⟨hexited, stop, hstop, hproof⟩ := hextends.ended hended
    refine ⟨run, hrun, hnode, hexited, stop, hstop, hproof.imp_left fun hunbound => ?_⟩
    intro bound hbound hid
    obtain ⟨hwal, run', hrun', hidentity⟩ := exists_run_of_bound hfresh hbound
    rw [hafter, hid, hrun] at hrun'
    cases hrun'
    rw [hidentity] at hunbound
    exact hwal hunbound
  · intro identity hcovers
    constructor
    · intro hregistered
      obtain ⟨front, back, next, happly, -⟩ := exists_of_mem_accepted later complete hregistered
      obtain ⟨hopen, hnode, -⟩ := register_cases happly
      have hextends := extends_after front complete hkeyed
      cases (completeNodes_cases h).2 _ hcovers with
      | inl hgeneration => exact hextends.closedBy hgeneration hopen
      | inr hsome =>
        have hclosed := hextends.closedNodes _ hsome
        rw [hnode] at hclosed
        cases hclosed
    · intro hbound
      obtain ⟨front, back, next, happly, -⟩ := exists_of_mem_accepted later complete hbound
      obtain ⟨run, hrun, -, hplace, -, hnone, -⟩ := bind_cases happly
      have hnode : identity.unbound.nodeID = run.identity.nodeID := by rw [hplace]; rfl
      obtain ⟨old, hextends, hended⟩ := ended_of_complete hkeyed h front hrun (hnode ▸ hcovers)
      obtain ⟨-, stop, hstop, -⟩ := hextends.ended hended
      rw [hnone] at hstop
      cases hstop

/-- A node with one run that drained and one that never started. -/
def fencedRun : List Call :=
  let bound : Identity := ⟨"c", "n", "p", "r1", "w"⟩
  let idle : Identity := ⟨"c", "n", "p", "r2", ""⟩
  [.register { bound with walIdentity := "" }, .bind bound, .register idle,
    .closeNodes "op" "h" ["n"],
    .recordDrain ⟨⟨"op", "h", bound⟩, true, 0, 0⟩, .recordExit ⟨"op", "h", bound⟩,
    .recordNeverBoundExit ⟨"op", "h", idle⟩]

theorem fencedRun_final :
    ((fresh "c").after fencedRun).completeNodes "op" "h" ["n"] ["p"] = true ∧
      .register ⟨"c", "n", "q", "r3", ""⟩ ∉ ((fresh "c").after fencedRun).accepted
        [.register ⟨"c", "n", "q", "r3", ""⟩] := by
  have hcomplete : ((fresh "c").after fencedRun).completeNodes "op" "h" ["n"] ["p"] = true := by
    decide +kernel
  have hfinal := completeNodes_final "c" "op" "h" ["n"] ["p"] fencedRun
    [.register ⟨"c", "n", "q", "r3", ""⟩] hcomplete
  exact ⟨hcomplete, (hfinal.2.1 ⟨"c", "n", "q", "r3", ""⟩ (by decide)).1⟩

end Ledger

end Rhiza.Fencing
