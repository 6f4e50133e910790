import Rhiza.Materializer.GraphReceipts
import Rhiza.Materializer.GraphRuns
import Rhiza.Materializer.Runs

/-! # What the graph is to become

The graph and the receipts after a slot, as a function of the log alone: the commands of every
slot settled one after the other. Journal, marker and tip play no part in it. A slot of which
some commands are settled can be taken up from its first command again: those that are settled
stay as they are.
-/

namespace Rhiza.Materializer

open Foundations Commands

namespace GraphStore

variable {Graph : Type}

/-- Graph and receipts, without what tells which slots are applied. -/
def bare (store : GraphStore Graph) : GraphStore Graph :=
  { store with journal := [], tip := 0, pending := none }

@[simp] theorem bare_requests (store : GraphStore Graph) : store.bare.requests = store.requests :=
  rfl

@[simp] theorem bare_graph (store : GraphStore Graph) : store.bare.graph = store.graph := rfl

theorem bare_pruneGraphRequests (store : GraphStore Graph) (slot : ℕ) :
    store.bare.pruneGraphRequests slot = (store.pruneGraphRequests slot).bare := by
  unfold pruneGraphRequests
  cases hids : store.bySlot.lookup slot <;> simp only [bare, hids]

theorem bare_pruneForApply (store : GraphStore Graph) (slot durableTip window : ℕ) :
    store.bare.pruneGraphRequestsForApply slot durableTip window =
      (store.pruneGraphRequestsForApply slot durableTip window).bare := by
  have hfold : ∀ (slots : List ℕ) (store : GraphStore Graph),
      slots.foldl pruneGraphRequests store.bare = (slots.foldl pruneGraphRequests store).bare := by
    intro slots
    induction slots with
    | nil => exact fun _ => rfl
    | cons slot slots ih =>
      intro store
      rw [List.foldl_cons, bare_pruneGraphRequests, ih, List.foldl_cons]
  rw [pruneForApply_eq, pruneForApply_eq, hfold]

theorem bare_putRequest (store : GraphStore Graph) (id : ByteString) (request : GraphRequest) :
    store.bare.putRequest id request = (store.putRequest id request).map bare := by
  unfold putRequest
  split <;> rfl

theorem bare_mark {store store' : GraphStore Graph} {entry : GraphJournalEntry} {advance : Bool}
    {confirmedThrough : ℕ} (h : store.mark entry advance confirmedThrough = .ok store') :
    store'.bare = store.bare := by
  cases advance with
  | true =>
    obtain ⟨-, -, rfl⟩ := advanceGraphMetadata_eq_ok.mp h
    rfl
  | false =>
    obtain ⟨-, rfl⟩ := setPendingGraphApply_eq_ok.mp h
    rfl

end GraphStore

open GraphStore

section Settle

variable {lib : Library} (engine : LatticeEngine lib.Float) (codec : Codec) (window : ℕ)

theorem bare_recordFailureTx (slot : ℕ) (command : GraphCommand lib.Float)
    (fingerprint : ValueHash) (durableTip : ℕ) (store : GraphStore engine.Graph) :
    recordFailureTx engine window slot command fingerprint durableTip store.bare =
      (recordFailureTx engine window slot command fingerprint durableTip store).map bare := by
  simp only [recordFailureTx, bare_pruneForApply, bare_requests]
  by_cases hknown : ((store.pruneGraphRequestsForApply slot durableTip window).requests.lookup
      command.requestID).isSome ∨ command.requestID = []
  · rw [if_pos hknown, if_pos hknown]
    rfl
  · rw [if_neg hknown, if_neg hknown, bare_putRequest]

theorem bare_applyCommandTx (slot : ℕ) (command : GraphCommand lib.Float)
    (fingerprint : ValueHash) (durableTip : ℕ) (store : GraphStore engine.Graph) :
    applyCommandTx engine window slot command fingerprint durableTip store.bare =
      (applyCommandTx engine window slot command fingerprint durableTip store).map bare := by
  simp only [applyCommandTx, bare_pruneForApply, bare_requests, bare_graph]
  split
  · rfl
  split
  · split <;> rfl
  split
  · rfl
  split
  · rfl
  · exact bare_putRequest (GraphStore.withGraph _ _) _ _

theorem bare_settleCommand (slot : ℕ) (command : GraphCommand lib.Float) (durableTip : ℕ)
    (store : GraphStore engine.Graph) :
    settleCommand engine codec window slot command durableTip store.bare =
      (settleCommand engine codec window slot command durableTip store).map bare := by
  simp only [settleCommand, bare_recordFailureTx, bare_applyCommandTx]
  split
  · rfl
  split
  · rfl
  rcases applyCommandTx engine window slot command _ durableTip store with error | store'
  · cases error <;> rfl
  · rfl

/-- Settles the commands of a slot. -/
def settleAll (slot durableTip : ℕ) : List (GraphCommand lib.Float) → GraphStore engine.Graph →
    Except GraphError (GraphStore engine.Graph)
  | [], store => .ok store
  | command :: rest, store =>
    match settleCommand engine codec window slot command durableTip store with
    | .error error => .error error
    | .ok store => settleAll slot durableTip rest store

variable {engine codec window} {slot durableTip : ℕ} {store store' : GraphStore engine.Graph}
  {command : GraphCommand lib.Float}

theorem settleAll_append {front back : List (GraphCommand lib.Float)} :
    settleAll engine codec window slot durableTip (front ++ back) store =
      match settleAll engine codec window slot durableTip front store with
      | .error error => .error error
      | .ok store => settleAll engine codec window slot durableTip back store := by
  induction front generalizing store with
  | nil => rfl
  | cons command front ih =>
    rw [List.cons_append, settleAll, settleAll]
    split
    · rfl
    · exact ih

theorem graphFingerprint_of_settle
    (h : settleCommand engine codec window slot command durableTip store = .ok store') :
    ∃ fingerprint, graphFingerprint lib codec command = some fingerprint := by
  unfold settleCommand at h
  split at h
  · cases h
  · rename_i fingerprint hprint
    exact ⟨fingerprint, hprint⟩

variable {commands : List (GraphCommand lib.Float)}

/-- What is settled stays recorded to the end of the slot. -/
theorem settleAll_keeps (hlate : durableTip < slot) (hswept : store.Swept slot durableTip window)
    (h : settleAll engine codec window slot durableTip commands store = .ok store') :
    store'.Swept slot durableTip window ∧ Keeps store store' := by
  induction commands generalizing store with
  | nil =>
    cases h
    exact ⟨hswept, .refl _⟩
  | cons command rest ih =>
    unfold settleAll at h
    split at h
    · cases h
    · rename_i settled hpay
      have hset := settled_settleCommand hpay
      obtain ⟨hswept', hkeeps⟩ := ih (hset.swept hlate) h
      have hfirst := hset.keeps
      rw [hswept.pruneForApply_eq_self] at hfirst
      exact ⟨hswept', hfirst.trans hkeeps⟩

theorem settleAll_recorded (hlate : durableTip < slot)
    (h : settleAll engine codec window slot durableTip commands store = .ok store') :
    ∀ command ∈ commands, store'.Swept slot durableTip window ∧
      (∃ fingerprint, graphFingerprint lib codec command = some fingerprint) ∧
      ((store'.requests.lookup command.requestID).isSome ∨ command.requestID = []) := by
  induction commands generalizing store with
  | nil => exact nofun
  | cons command rest ih =>
    unfold settleAll at h
    split at h
    · cases h
    · rename_i settled hpay
      have hset := settled_settleCommand hpay
      obtain ⟨hswept, hkeeps⟩ := settleAll_keeps hlate (hset.swept hlate) h
      refine List.forall_mem_cons.mpr
        ⟨⟨hswept, graphFingerprint_of_settle hpay, hset.recorded.imp_left ?_⟩, ih h⟩
      intro hsome
      obtain ⟨request, hask⟩ := Option.isSome_iff_exists.mp hsome
      rw [hkeeps _ request hask]
      rfl

theorem except_map_eq_ok {ε α β : Type} {outcome : Except ε α} {f : α → β} {result : β}
    (h : outcome.map f = .ok result) : ∃ value, outcome = .ok value ∧ f value = result := by
  cases outcome with
  | error => cases h
  | ok value => exact ⟨value, rfl, Except.ok.inj h⟩

variable {start final : GraphStore engine.Graph} {index : ℕ} {entry : GraphJournalEntry}
  {state : GraphState engine.Graph}

/-- Taking up a slot again: a command that is settled already leaves everything as it is, and
the next one is settled as it would have been. -/
theorem settle_at {rest : List (GraphCommand lib.Float)} {done : ℕ} (hlate : durableTip < slot)
    (hall : settleAll engine codec window slot durableTip commands start = .ok final)
    (hdone : settleAll engine codec window slot durableTip (commands.take done) start =
      .ok store.bare)
    (hindex : index ≤ done) (hrem : commands.drop index = command :: rest) :
    ∃ store', settleCommand engine codec window slot command durableTip store = .ok store' ∧
      settleAll engine codec window slot durableTip (commands.take (max done (index + 1))) start =
        .ok store'.bare := by
  have hjob : commands[index]? = some command := by
    rw [← List.head?_drop, hrem, List.head?_cons]
  -- It is enough to settle the command in the bare store.
  suffices hbare : ∃ settled,
      settleCommand engine codec window slot command durableTip store.bare = .ok settled ∧
      settleAll engine codec window slot durableTip (commands.take (max done (index + 1))) start =
        .ok settled by
    obtain ⟨settled, hpay, hreach⟩ := hbare
    rw [bare_settleCommand] at hpay
    obtain ⟨store', hstore', rfl⟩ := except_map_eq_ok hpay
    exact ⟨store', hstore', hreach⟩
  obtain hlt | rfl := Nat.lt_or_eq_of_le hindex
  · have hmem : command ∈ commands.take done :=
      List.mem_of_getElem? (by rw [List.getElem?_take_of_lt hlt, hjob])
    obtain ⟨hswept, ⟨fingerprint, hprint⟩, hrec⟩ := settleAll_recorded hlate hdone command hmem
    rw [Nat.max_eq_left hlt]
    exact ⟨store.bare, settleCommand_again hprint hswept hrec, hdone⟩
  · rw [Nat.max_eq_right (Nat.le_succ index)]
    have hlast : commands.take (index + 1) = commands.take index ++ [command] := by
      rw [List.take_add_one, hjob, Option.toList_some]
    rw [← List.take_append_drop (index + 1) commands, settleAll_append] at hall
    split at hall
    · cases hall
    · rename_i settled hset
      refine ⟨settled, ?_, hset⟩
      rw [hlast, settleAll_append, hdone] at hset
      simp only [settleAll] at hset
      split at hset
      · cases hset
      · rename_i settled' hpay
        cases hset
        exact hpay

/-- The commands of a slot, taken up where `done` of them are settled: in the end all are, or
some more and the slot is marked as begun. -/
theorem applyCommands_reaches {confirmedThrough : ℕ}
    {commands remaining : List (GraphCommand lib.Float)}
    {done : ℕ} {budget budget' : Budget} {state' : GraphState engine.Graph}
    {result : Except GraphError Unit}
    (h : applyCommands engine codec window entry confirmedThrough remaining budget state =
      (state', budget', result))
    (hlate : state.durableTip < entry.slot)
    (hall : settleAll engine codec window entry.slot state.durableTip commands start = .ok final)
    (hdone : settleAll engine codec window entry.slot state.durableTip (commands.take done) start =
      .ok state.store.bare)
    (hindex : index ≤ done) (hlt : done < commands.length)
    (hrem : commands.drop index = remaining) :
    (result = .ok () ∧ settleAll engine codec window entry.slot state.durableTip commands start =
      .ok state'.store.bare) ∨
    ((∃ error, result = .error error) ∧ (state' = state ∨ ∃ done', 0 < done' ∧
      done' < commands.length ∧ state'.store.pending = some entry ∧
      settleAll engine codec window entry.slot state.durableTip (commands.take done') start =
        .ok state'.store.bare)) := by
  induction remaining generalizing index done budget state with
  | nil =>
    have := List.drop_eq_nil_iff.mp hrem
    omega
  | cons command rest ih =>
    have hrest : commands.drop (index + 1) = rest := by
      rw [← List.tail_drop, hrem, List.tail_cons]
    obtain ⟨settled, hpay, hset⟩ := settle_at hlate hall hdone hindex hrem
    simp only [applyCommands] at h
    split at h
    · cases h
      exact .inr ⟨⟨_, rfl⟩, .inl rfl⟩
    rename_i store hsave
    have hbare : store.bare = settled.bare := by
      rw [commitCommand, hpay] at hsave
      exact bare_mark hsave
    split at h
    · cases h
      exact .inr ⟨⟨_, rfl⟩, .inl rfl⟩
    cases rest with
    | nil =>
      have hend : commands.length ≤ index + 1 := List.drop_eq_nil_iff.mp hrest
      cases h
      rw [List.take_of_length_le (by omega)] at hset
      exact .inl ⟨rfl, by rw [hset, ← hbare]⟩
    | cons =>
      have hmore : index + 1 < commands.length := by
        by_contra hend
        rw [List.drop_eq_nil_of_le (Nat.le_of_not_lt hend)] at hrest
        cases hrest
      obtain hok | ⟨herror, hstate⟩ := ih h hlate hall (hbare ▸ hset) (Nat.le_max_right _ _)
        (Nat.max_lt.mpr ⟨hlt, hmore⟩) hrest
      · exact .inl hok
      · refine .inr ⟨herror, .inr ?_⟩
        obtain rfl | hbegun := hstate
        · exact ⟨max done (index + 1), by omega, Nat.max_lt.mpr ⟨hlt, hmore⟩,
            (commitCommand_inner hsave).2.1, hbare ▸ hset⟩
        · exact hbegun

/-- Without a failed transaction the slot is completed. -/
theorem applyCommands_completes (confirmedThrough : ℕ)
    {commands remaining : List (GraphCommand lib.Float)} {done : ℕ}
    (hpend : ∀ pending ∈ state.store.pending, pending = entry)
    (hbook : ∀ last ∈ state.store.journal, last.slot < entry.slot)
    (hlate : state.durableTip < entry.slot)
    (hall : settleAll engine codec window entry.slot state.durableTip commands start = .ok final)
    (hdone : settleAll engine codec window entry.slot state.durableTip (commands.take done) start =
      .ok state.store.bare)
    (hindex : index ≤ done) (hrem : commands.drop index = remaining) :
    ∃ state', applyCommands engine codec window entry confirmedThrough remaining none state =
      (state', none, .ok ()) := by
  induction remaining generalizing index done state with
  | nil => exact ⟨state, rfl⟩
  | cons command rest ih =>
    have hrest : commands.drop (index + 1) = rest := by
      rw [← List.tail_drop, hrem, List.tail_cons]
    obtain ⟨settled, hpay, hset⟩ := settle_at hlate hall hdone hindex hrem
    have hsame := sameProgress_settleCommand hpay
    obtain ⟨store, hmark⟩ := mark_isOk (hsame.pending ▸ hpend) (hsame.journal ▸ hbook)
      rest.isEmpty confirmedThrough
    have hsave : commitCommand engine codec window entry command rest.isEmpty confirmedThrough
        state.durableTip state.store = .ok store := by
      rw [commitCommand, hpay]
      exact hmark
    simp only [applyCommands, hsave, Budget.spend]
    cases rest with
    | nil => exact ⟨_, rfl⟩
    | cons =>
      obtain ⟨-, hnote, hkept⟩ := commitCommand_inner hsave
      refine ih ?_ ?_ hlate hall ?_ (Nat.le_max_right done _) hrest
      · intro pending hmem
        exact (Option.some_inj.mp (hnote.symm.trans hmem)).symm
      · exact hkept ▸ hbook
      · exact hset.trans (congrArg Except.ok (bare_mark hmark).symm)

end Settle

/-! ## The log -/

namespace GraphSite

variable (site : GraphSite)

def IsGraph (slot : ℕ) : Prop :=
  ∃ commands, decodeGraphBatch site.lib (site.log slot) = .ok (some commands)

/-- What the log up to a slot makes of graph and database. -/
structure Reference where
  store : GraphStore site.engine.Graph
  /-- The last slot with graph commands. -/
  last : ℕ
  database : site.Database

def reference (graph : site.engine.Graph) (database : site.Database) : ℕ → Option (Reference site)
  | 0 => some ⟨.fresh graph, 0, database⟩
  | slot + 1 => do
    let before ← reference graph database slot
    let database ← (site.applySQL (slot + 1) (site.log (slot + 1)) before.database).toOption
    match decodeGraphBatch site.lib (site.log (slot + 1)) with
    | .error _ => none
    | .ok none => if site.known (site.log (slot + 1)) then some { before with database } else none
    | .ok (some commands) => do
      let store ← (settleAll site.engine site.codec site.window (slot + 1) before.last commands
        before.store).toOption
      some ⟨store, slot + 1, database⟩

variable {site} {graph : site.engine.Graph} {database : site.Database} {slot : ℕ}
  {after : Reference site}

theorem reference_succ
    (h : site.reference graph database (slot + 1) = some after) :
    ∃ before, site.reference graph database slot = some before ∧
      site.applySQL (slot + 1) (site.log (slot + 1)) before.database = .ok after.database ∧
      ((decodeGraphBatch site.lib (site.log (slot + 1)) = .ok none ∧
          site.known (site.log (slot + 1)) = true ∧ after.store = before.store ∧
          after.last = before.last) ∨
        ∃ commands, decodeGraphBatch site.lib (site.log (slot + 1)) = .ok (some commands) ∧
          settleAll site.engine site.codec site.window (slot + 1) before.last commands
            before.store = .ok after.store ∧ after.last = slot + 1) := by
  rw [reference] at h
  simp only [Option.bind_eq_bind, Option.bind_eq_some_iff] at h
  obtain ⟨before, hpre, database', hsql, h⟩ := h
  have hsql := toOption_eq_some.mp hsql
  refine ⟨before, hpre, ?_⟩
  split at h
  · cases h
  · rename_i hplain
    split at h
    · rename_i hknown
      cases h
      exact ⟨hsql, .inl ⟨hplain, hknown, rfl, rfl⟩⟩
    · cases h
  · rename_i commands hgraph
    simp only [Option.bind_eq_some_iff] at h
    obtain ⟨store, hstore, h⟩ := h
    cases h
    refine ⟨hsql, .inr ⟨commands, hgraph, ?_, rfl⟩⟩
    cases hpay : settleAll site.engine site.codec site.window (slot + 1) before.last commands
        before.store with
    | error =>
      rw [hpay] at hstore
      cases hstore
    | ok =>
      rw [hpay] at hstore
      cases hstore
      rfl

/-- Slots without graph commands leave the graph alone. -/
theorem reference_plain {from_ : ℕ} {before : Reference site}
    (hpre : site.reference graph database from_ = some before)
    (hafter : site.reference graph database slot = some after) (hle : from_ ≤ slot)
    (hplain : ∀ between, from_ < between → between ≤ slot →
      decodeGraphBatch site.lib (site.log between) = .ok none) :
    after.store = before.store ∧ after.last = before.last := by
  induction slot, hle using Nat.le_induction generalizing after with
  | base =>
    cases hpre.symm.trans hafter
    exact ⟨rfl, rfl⟩
  | succ slot hle ih =>
    obtain ⟨middle, hmid, -, hstep⟩ := reference_succ hafter
    obtain ⟨hstore, hlast⟩ := ih hmid fun between hlt hle' => hplain between hlt (by omega)
    obtain ⟨-, -, hstore', hlast'⟩ | ⟨commands, hgraph, -⟩ := hstep
    · exact ⟨hstore'.trans hstore, hlast'.trans hlast⟩
    · rw [hplain (slot + 1) (by omega) le_rfl] at hgraph
      cases hgraph

end GraphSite

/-! ## The database of a materializer -/

/-- The graph beside a materializer: the work of a slot in the database is a batch of its own. -/
def Site.graphSite (site : Site) (engine : LatticeEngine site.lib.Float)
    (known : ByteString → Bool) (log : ℕ → ByteString) : GraphSite where
  lib := site.lib
  engine
  codec := site.codec
  window := site.window
  known
  Database := State site
  applySQL slot value materializer :=
    match materializer.applyBatch site.execution [(slot, value)] with
    | .ok (materializer, _) => .ok materializer
    | .error _ => .error "SQL apply failed"
  log

/-- The database of the reference is the one that a materializer reaches slot by slot. -/
theorem reference_run {site : Site} {engine : LatticeEngine site.lib.Float}
    {known : ByteString → Bool} {log : ℕ → ByteString} {graph : engine.Graph}
    {database : site.engine.Database} {count : ℕ}
    {after : GraphSite.Reference (site.graphSite engine known log)}
    (h : (site.graphSite engine known log).reference graph (Node.fresh database).materializer
      count = some after) :
    ∃ node, runFrom (Node.step log) (Node.fresh database) ((List.range count).map fun slot =>
        .applyBatch ⟨site.execution, slot + 1, 1, slot.succ_pos, Batch.one_le⟩) = some node ∧
      node.materializer = after.database := by
  induction count generalizing after with
  | zero =>
    cases h
    exact ⟨_, rfl, rfl⟩
  | succ slot ih =>
    obtain ⟨before, hbefore, hsql, -⟩ := GraphSite.reference_succ h
    obtain ⟨node, hrun, hnode⟩ := ih hbefore
    rw [List.range_succ, List.map_append]
    refine ⟨_, runFrom_append.mpr ⟨node, hrun, rfl⟩, ?_⟩
    dsimp only [Site.graphSite] at hsql
    rw [← hnode] at hsql
    simp only [Node.applyBatch, Batch.decisions, slice_succ]
    split at hsql
    next materializer effects hbatch =>
      cases hsql
      have hslice : slice log (slot + 1 + 1) 0 = [] := rfl
      rw [hslice, hbatch]
    next => cases hsql

end Rhiza.Materializer
