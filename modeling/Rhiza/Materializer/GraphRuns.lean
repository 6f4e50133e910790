import Rhiza.Materializer.Graph
import Rhiza.Foundations.System

/-! # The graph beside the database

A materializer applies the decided log in batches. For each slot the graph is brought up to
date first, transaction by transaction; the database commits once, at the end of the batch. A
batch that fails leaves the database as it was and the graph as far as it got. After a crash
the graph is where its last transaction left it, while the database may have lost any number
of its last commits.
-/

namespace Rhiza.Materializer

open Foundations Commands

/-- The log and the engines it is applied to. -/
structure GraphSite where
  lib : Library
  engine : LatticeEngine lib.Float
  codec : Codec
  window : ℕ
  known : ByteString → Bool
  Database : Type
  /-- The work of a slot in the database. -/
  applySQL : ℕ → ByteString → Database → Checked Database
  /-- The decided value of each slot, from 1 on. -/
  log : ℕ → ByteString

namespace GraphSite

variable (site : GraphSite)

abbrev Graph := GraphState site.engine.Graph

def entry (slot : ℕ) : GraphJournalEntry := ⟨slot, site.codec.sha256 (coreBytes (site.log slot))⟩

/-- Applies the value of a slot to the graph. -/
def applyGraphAt (confirmedThrough slot : ℕ) (budget : Budget) (graph : site.Graph) :
    site.Graph × Budget × Except GraphError Unit :=
  match decodeGraphBatch site.lib (site.log slot) with
  | .error message => (graph, budget, .error (.other message))
  | .ok commands =>
    applyGraph site.engine site.codec site.window site.known slot (site.log slot) commands
      confirmedThrough budget graph

/-- Applies a number of slots from one on. -/
def applySlots (confirmedThrough : ℕ) : ℕ → ℕ → Budget → site.Graph → site.Database →
    site.Graph × Checked site.Database
  | 0, _, _, graph, database => (graph, .ok database)
  | count + 1, slot, budget, graph, database =>
    match site.applyGraphAt confirmedThrough slot budget graph with
    | (graph, _, .error _) => (graph, .error "graph apply failed")
    | (graph, budget, .ok ()) =>
      match site.applySQL slot (site.log slot) database with
      | .error message => (graph, .error message)
      | .ok database => applySlots confirmedThrough count (slot + 1) budget graph database

/-- A materializer: its graph, and the commits of its database from the last to the first,
each with the slot it has applied. -/
structure Node where
  graph : site.Graph
  commits : List (ℕ × site.Database)

inductive NodeEvent where
  /-- A batch of the next slots. The database may fail to commit it. -/
  | batch (count : ℕ) (budget : Budget) (commits : Bool)
  /-- A crash that loses the last commits of the database, and the start after it. -/
  | crash (lost : ℕ)

variable {site}

def Node.step (node : Node site) : NodeEvent → Option (Node site)
  | .batch count budget commits => do
    let (tip, database) ← node.commits.head?
    match site.applySlots tip count (tip + 1) budget node.graph database with
    | (graph, .ok database) =>
      some ⟨graph, if commits then (tip + count, database) :: node.commits else node.commits⟩
    | (graph, .error _) => some { node with graph }
  | .crash lost => do
    let kept := node.commits.drop lost
    let (tip, _) ← kept.head?
    let graph ← (openGraph site.engine tip node.graph.store).toOption
    some ⟨graph, kept⟩

variable (site)

def Node.initial (graph : site.engine.Graph) (database : site.Database) : Node site :=
  { graph := { store := .fresh graph, tip := 0, durableTip := 0, pending := none }
    commits := [(0, database)] }

end GraphSite

/-! ## What a command leaves in the store -/

section Commit

variable {lib : Library} {engine : LatticeEngine lib.Float} {codec : Codec} {window : ℕ}
  {command : GraphCommand lib.Float} {fingerprint : ValueHash} {durableTip : ℕ}

namespace GraphStore

/-- The stores agree on all that tells which slots are applied. -/
structure SameProgress {Graph : Type} (store store' : GraphStore Graph) : Prop where
  journal : store'.journal = store.journal
  tip : store'.tip = store.tip
  pending : store'.pending = store.pending

variable {Graph : Type}

theorem SameProgress.refl (store : GraphStore Graph) : SameProgress store store :=
  ⟨rfl, rfl, rfl⟩

theorem SameProgress.trans {first second third : GraphStore Graph}
    (hfirst : SameProgress first second) (htwo : SameProgress second third) :
    SameProgress first third :=
  ⟨htwo.journal.trans hfirst.journal, htwo.tip.trans hfirst.tip, htwo.pending.trans hfirst.pending⟩

theorem sameProgress_pruneGraphRequests (store : GraphStore Graph) (slot : ℕ) :
    SameProgress store (store.pruneGraphRequests slot) := by
  unfold pruneGraphRequests
  split
  · exact .refl store
  · exact ⟨rfl, rfl, rfl⟩

theorem sameProgress_pruneForApply (store : GraphStore Graph) (slot durableTip window : ℕ) :
    SameProgress store (store.pruneGraphRequestsForApply slot durableTip window) := by
  have hfold : ∀ (slots : List ℕ) (store : GraphStore Graph),
      SameProgress store (slots.foldl pruneGraphRequests store) := by
    intro slots
    induction slots with
    | nil => exact SameProgress.refl
    | cons slot slots ih =>
      intro store
      exact (sameProgress_pruneGraphRequests store slot).trans (ih _)
  unfold pruneGraphRequestsForApply
  split
  · exact .refl store
  · exact hfold _ store

theorem sameProgress_putRequest {store store' : GraphStore Graph}
    {id : ByteString} {request : GraphRequest} (h : store.putRequest id request = .ok store') :
    SameProgress store store' := by
  unfold putRequest at h
  split at h
  · cases h
  · cases h
    exact ⟨rfl, rfl, rfl⟩

end GraphStore

open GraphStore

variable {store store' : GraphStore engine.Graph} {slot : ℕ}

theorem sameProgress_applyCommandTx
    (h : applyCommandTx engine window slot command fingerprint durableTip store = .ok store') :
    SameProgress store store' := by
  have htrim := sameProgress_pruneForApply store slot durableTip window
  unfold applyCommandTx at h
  split at h
  · cases h
  split at h
  · split at h
    · cases h
    · cases h
      exact htrim
  split at h
  · cases h
  split at h
  · cases h
  · have hput := sameProgress_putRequest h
    exact ⟨hput.journal.trans htrim.journal, hput.tip.trans htrim.tip,
      hput.pending.trans htrim.pending⟩

theorem sameProgress_recordFailureTx
    (h : recordFailureTx engine window slot command fingerprint durableTip store = .ok store') :
    SameProgress store store' := by
  have htrim := sameProgress_pruneForApply store slot durableTip window
  unfold recordFailureTx at h
  simp only at h
  split at h
  · cases h
    exact htrim
  · exact htrim.trans (sameProgress_putRequest h)

theorem sameProgress_settleCommand
    (h : settleCommand engine codec window slot command durableTip store = .ok store') :
    SameProgress store store' := by
  unfold settleCommand at h
  split at h
  · cases h
  split at h
  · exact sameProgress_recordFailureTx h
  split at h
  · exact sameProgress_recordFailureTx h
  · exact sameProgress_applyCommandTx h

theorem error_if_any {α β : Type} {option : Option α} {bad : α → Bool} {error : GraphError}
    {next : Except GraphError β} {result : β} :
    (if option.any bad = true then .error error else next) = .ok result ↔
      (∀ value ∈ option, bad value = false) ∧ next = .ok result := by
  cases option with
  | none => simp
  | some value => cases hbad : bad value <;> simp [hbad]

variable {entry : GraphJournalEntry} {confirmedThrough : ℕ} {Graph : Type}

theorem advanceGraphMetadata_eq_ok {store store' : GraphStore Graph} :
    store.advanceGraphMetadata entry confirmedThrough = .ok store' ↔
      (∀ pending ∈ store.pending, pending = entry) ∧
      (∀ last ∈ (pendingGraphJournal store.journal confirmedThrough).getLast?,
        last.slot < entry.slot) ∧
      store' = { store with
        journal := pendingGraphJournal store.journal confirmedThrough ++ [entry]
        tip := entry.slot, pending := none } := by
  simp only [advanceGraphMetadata, error_if_any, decide_eq_false_iff_not, ne_eq, not_not, not_le,
    Except.ok.injEq, eq_comm (a := store')]

theorem setPendingGraphApply_eq_ok {store store' : GraphStore Graph} :
    store.setPendingGraphApply entry = .ok store' ↔
      (∀ pending ∈ store.pending, pending = entry) ∧
      store' = { store with pending := some entry } := by
  simp only [setPendingGraphApply, error_if_any, decide_eq_false_iff_not, ne_eq, not_not,
    Except.ok.injEq, eq_comm (a := store')]

theorem mem_of_mem_pendingGraphJournal {entries : List GraphJournalEntry} {through : ℕ}
    (h : entry ∈ pendingGraphJournal entries through) :
    entry ∈ entries := (List.dropWhile_sublist _).subset h

theorem mark_isOk {store : GraphStore Graph} (hpend : ∀ pending ∈ store.pending, pending = entry)
    (hbook : ∀ last ∈ store.journal, last.slot < entry.slot) (advance : Bool)
    (confirmedThrough : ℕ) : ∃ store', store.mark entry advance confirmedThrough = .ok store' := by
  cases advance with
  | true =>
    refine ⟨_, advanceGraphMetadata_eq_ok.mpr ⟨hpend, fun last hlast => ?_, rfl⟩⟩
    exact hbook last (mem_of_mem_pendingGraphJournal (List.mem_of_getLast? hlast))
  | false => exact ⟨_, setPendingGraphApply_eq_ok.mpr ⟨hpend, rfl⟩⟩

/-- How far a slot has got after some of its commands. -/
structure SlotBegun {Graph : Type} (entry : GraphJournalEntry) (state state' : GraphState Graph) :
    Prop where
  tip : state'.tip = state.tip
  durableTip : state'.durableTip = state.durableTip
  storeTip : state'.store.tip = state.store.tip
  journal : state'.store.journal = state.store.journal
  pending : state'.pending = state.pending ∧ state'.store.pending = state.store.pending ∨
    state'.pending = some entry ∧ state'.store.pending = some entry

/-- What the last command of a slot leaves. -/
structure SlotDone {Graph : Type} (entry : GraphJournalEntry) (confirmedThrough : ℕ)
    (state state' : GraphState Graph) : Prop where
  tip : state'.tip = state.tip
  storeTip : state'.store.tip = entry.slot
  journal : state'.store.journal =
    pendingGraphJournal state.store.journal confirmedThrough ++ [entry]
  pending : state'.pending = none ∧ state'.store.pending = none

theorem commitCommand_last
    (h : commitCommand engine codec window entry command true confirmedThrough durableTip store =
      .ok store') :
    store'.tip = entry.slot ∧ store'.pending = none ∧
      store'.journal = pendingGraphJournal store.journal confirmedThrough ++ [entry] := by
  unfold commitCommand at h
  split at h
  · cases h
  · rename_i changed hend
    obtain ⟨-, -, rfl⟩ := advanceGraphMetadata_eq_ok.mp h
    have hsame := sameProgress_settleCommand hend
    exact ⟨rfl, rfl, by rw [← hsame.journal]⟩

theorem commitCommand_inner
    (h : commitCommand engine codec window entry command false confirmedThrough durableTip store =
      .ok store') :
    store'.tip = store.tip ∧ store'.pending = some entry ∧ store'.journal = store.journal := by
  unfold commitCommand at h
  split at h
  · cases h
  · rename_i changed hend
    obtain ⟨-, rfl⟩ := setPendingGraphApply_eq_ok.mp h
    have hsame := sameProgress_settleCommand hend
    exact ⟨hsame.tip, rfl, hsame.journal⟩

theorem SlotBegun.refl (entry : GraphJournalEntry) (state : GraphState Graph) :
    SlotBegun entry state state := ⟨rfl, rfl, rfl, rfl, .inl ⟨rfl, rfl⟩⟩

/-- The commands of a slot either all go through, or leave it begun. -/
theorem applyCommands_progress
    {commands : List (GraphCommand lib.Float)} (hne : commands ≠ []) {budget budget' : Budget}
    {state state' : GraphState engine.Graph} {result : Except GraphError Unit}
    (h : applyCommands engine codec window entry confirmedThrough commands budget state =
      (state', budget', result)) :
    (∃ error, result = .error error) ∧ SlotBegun entry state state' ∨
      result = .ok () ∧ SlotDone entry confirmedThrough state state' := by
  induction commands generalizing budget state with
  | nil => exact absurd rfl hne
  | cons command rest ih =>
    simp only [applyCommands] at h
    split at h
    · cases h
      exact .inl ⟨⟨_, rfl⟩, .refl entry _⟩
    rename_i store hsave
    split at h
    · cases h
      exact .inl ⟨⟨_, rfl⟩, .refl entry _⟩
    cases rest with
    | nil =>
      obtain ⟨htip, hpend, hbook⟩ := commitCommand_last hsave
      cases h
      exact .inr ⟨rfl, rfl, htip, hbook, rfl, hpend⟩
    | cons =>
      obtain ⟨htip, hpend, hbook⟩ := commitCommand_inner hsave
      obtain ⟨herror, hbegun⟩ | ⟨hok, hdone⟩ := ih (List.cons_ne_nil _ _) h
      · refine .inl ⟨herror, hbegun.tip, hbegun.durableTip, hbegun.storeTip.trans htip,
          hbegun.journal.trans hbook, .inr ?_⟩
        obtain ⟨hmemory, hstore⟩ | hboth := hbegun.pending
        · exact ⟨hmemory, hstore.trans hpend⟩
        · exact hboth
      · exact .inr ⟨hok, hdone.tip, hdone.storeTip, by rw [hdone.journal, hbook], hdone.pending⟩

end Commit

/-! ## What a slot does to the graph -/

namespace GraphSite

variable {site : GraphSite}

/-- The ways in which the value of a slot can be applied. -/
inductive Applies (site : GraphSite) (confirmedThrough slot : ℕ) (budget : Budget)
    (graph : site.Graph) : site.Graph → Budget → Except GraphError Unit → Prop
  | failed (error : GraphError) :
    Applies site confirmedThrough slot budget graph graph budget (.error error)
  | replayed (hle : slot ≤ graph.tip)
    (hproof : site.entry slot ∈ graph.store.journal ∨
      decodeGraphBatch site.lib (site.log slot) = .ok none) :
    Applies site confirmedThrough slot budget graph graph budget (.ok ())
  | plain (hnext : slot = graph.tip + 1)
    (hplain : decodeGraphBatch site.lib (site.log slot) = .ok none)
    (hpend : ∀ pending ∈ graph.pending, slot < pending.slot)
    (hknown : site.known (site.log slot) = true) :
    Applies site confirmedThrough slot budget graph { graph with tip := slot } budget (.ok ())
  | begun {commands state budget' error} (hnext : slot = graph.tip + 1)
    (hgraph : decodeGraphBatch site.lib (site.log slot) = .ok (some commands))
    (hpend : ∀ pending ∈ graph.pending, pending = site.entry slot)
    (hrun : applyCommands site.engine site.codec site.window (site.entry slot) confirmedThrough
      commands budget graph = (state, budget', .error error)) :
    Applies site confirmedThrough slot budget graph state budget' (.error error)
  | done {commands state budget'} (hnext : slot = graph.tip + 1)
    (hgraph : decodeGraphBatch site.lib (site.log slot) = .ok (some commands))
    (hpend : ∀ pending ∈ graph.pending, pending = site.entry slot)
    (hrun : applyCommands site.engine site.codec site.window (site.entry slot) confirmedThrough
      commands budget graph = (state, budget', .ok ())) :
    Applies site confirmedThrough slot budget graph
      { state with tip := slot, durableTip := slot } budget' (.ok ())

variable {graph graph' : site.Graph} {confirmedThrough slot sqlTip count : ℕ} {budget : Budget}
  {result : Except GraphError Unit} {commands : List (GraphCommand site.lib.Float)}
  {node : Node site}

theorem applyGraphAt_applies {budget' : Budget}
    (h : site.applyGraphAt confirmedThrough slot budget graph = (graph', budget', result)) :
    Applies site confirmedThrough slot budget graph graph' budget' result := by
  unfold applyGraphAt at h
  split at h
  · cases h
    exact .failed _
  rename_i commands hgot
  simp only [applyGraph] at h
  split at h
  · cases h
    exact .failed _
  rename_i hpend
  split at h
  · cases h
    exact .failed _
  rename_i hproof
  split at h
  · rename_i hle
    split at h
    · rename_i found hfind
      split at h
      · cases h
        exact .failed _
      · rename_i hsame
        cases h
        have hentry : found = site.entry slot := not_not.mp hsame
        exact .replayed hle (.inl (hentry ▸ List.mem_of_find?_eq_some hfind))
    · split at h
      · cases h
        exact .failed _
      · rename_i hnone
        split at h
        · cases h
          obtain rfl : commands = none := by simpa using hnone
          exact .replayed hle (.inr hgot)
        · cases h
          exact .failed _
  rename_i hgt
  split at h
  · cases h
    exact .failed _
  rename_i hnext
  have hnext : slot = graph.tip + 1 := not_not.mp hnext
  have hfresh : ∀ pending ∈ graph.pending, ¬ (pending.slot < slot ∨
      slot = pending.slot ∧ (commands.isNone = true ∨ pending ≠ site.entry slot)) := by
    intro pending hmem
    rw [Option.mem_def] at hmem
    simpa [hmem, entry] using hpend
  split at h
  · split at h
    · rename_i hknown
      cases h
      refine .plain hnext hgot (fun pending hmem => ?_) hknown
      have hthis := hfresh pending hmem
      simp only [Option.isNone_none, true_or, and_true] at hthis
      omega
    · cases h
      exact .failed _
  rename_i commands
  have hsame : ∀ pending ∈ graph.pending, pending = site.entry slot := by
    intro pending hmem
    have hthis := hfresh pending hmem
    have hlater : ¬ slot < pending.slot := by
      rw [Option.mem_def] at hmem
      intro hlt
      exact hproof ⟨rfl, by omega, by simpa [hmem] using hlt⟩
    by_contra hne
    exact hthis (.inr ⟨by omega, .inr hne⟩)
  rcases hrun : applyCommands site.engine site.codec site.window (site.entry slot)
    confirmedThrough commands budget graph with ⟨state, rest, outcome⟩
  change finishSlot slot (applyCommands site.engine site.codec site.window (site.entry slot)
    confirmedThrough commands budget graph) = _ at h
  rw [hrun] at h
  cases outcome with
  | ok done =>
    cases h
    exact .done hnext hgot hsame hrun
  | error =>
    cases h
    exact .begun hnext hgot hsame hrun

/-! ## Order -/

/-- Memory and store agree, the graph is not behind the database, and every slot that the
graph has passed without a mark in the store had no graph command. -/
structure Orderly (site : GraphSite) (sqlTip : ℕ) (graph : site.Graph) : Prop where
  durable : graph.durableTip = graph.store.tip
  pending : graph.pending = graph.store.pending
  durable_le : graph.store.tip ≤ graph.tip
  sql_le : sqlTip ≤ graph.tip
  journal_le : ∀ entry ∈ graph.store.journal, entry.slot ≤ graph.store.tip
  pending_next : ∀ entry ∈ graph.store.pending, graph.tip < entry.slot ∧
    entry = site.entry entry.slot ∧
      ∃ commands, decodeGraphBatch site.lib (site.log entry.slot) = .ok (some commands)
  plain : ∀ slot, graph.store.tip < slot →
    (slot ≤ graph.tip ∨ ∃ entry ∈ graph.store.pending, slot < entry.slot) →
      decodeGraphBatch site.lib (site.log slot) = .ok none

theorem Orderly.begun {graph state : site.Graph} (hord : Orderly site sqlTip graph)
    (hnext : slot = graph.tip + 1)
    (hgraph : decodeGraphBatch site.lib (site.log slot) = .ok (some commands))
    (hbegun : SlotBegun (site.entry slot) graph state) : Orderly site sqlTip state where
  durable := by rw [hbegun.durableTip, hbegun.storeTip, hord.durable]
  pending := by
    obtain ⟨hmemory, hstore⟩ | ⟨hmemory, hstore⟩ := hbegun.pending
    · rw [hmemory, hstore, hord.pending]
    · rw [hmemory, hstore]
  durable_le := by
    rw [hbegun.storeTip, hbegun.tip]
    exact hord.durable_le
  sql_le := by
    rw [hbegun.tip]
    exact hord.sql_le
  journal_le := by
    rw [hbegun.storeTip, hbegun.journal]
    exact hord.journal_le
  pending_next := by
    intro entry hentry
    rw [hbegun.tip]
    obtain ⟨-, hstore⟩ | ⟨-, hstore⟩ := hbegun.pending
    · exact hord.pending_next entry (hstore ▸ hentry)
    · cases hstore ▸ hentry
      exact ⟨hnext ▸ Nat.lt_succ_self _, rfl, commands, hgraph⟩
  plain := by
    intro slot' hlt hwith
    rw [hbegun.storeTip] at hlt
    rw [hbegun.tip] at hwith
    apply hord.plain slot' hlt
    obtain ⟨-, hstore⟩ | ⟨-, hstore⟩ := hbegun.pending
    · rwa [hstore] at hwith
    · obtain hle | ⟨entry, hentry, hpre⟩ := hwith
      · exact .inl hle
      · cases hstore ▸ hentry
        change slot' < slot at hpre
        exact .inl (by omega)

theorem Orderly.done {graph state : site.Graph}
    (hord : Orderly site sqlTip graph) (hnext : slot = graph.tip + 1)
    (hdone : SlotDone (site.entry slot) confirmedThrough graph state) :
    Orderly site sqlTip { state with tip := slot, durableTip := slot } where
  durable := hdone.storeTip.symm
  pending := hdone.pending.1.trans hdone.pending.2.symm
  durable_le := hdone.storeTip.le
  sql_le := hord.sql_le.trans (by simp [hnext])
  journal_le := by
    intro entry hentry
    change entry ∈ state.store.journal at hentry
    rw [hdone.journal, List.mem_append, List.mem_singleton] at hentry
    change entry.slot ≤ state.store.tip
    rw [hdone.storeTip]
    obtain hold | rfl := hentry
    · have hpre := hord.journal_le entry (mem_of_mem_pendingGraphJournal hold)
      exact hpre.trans (hord.durable_le.trans (show graph.tip ≤ slot by omega))
    · exact le_rfl
  pending_next := by
    intro entry hentry
    change entry ∈ state.store.pending at hentry
    rw [hdone.pending.2] at hentry
    cases hentry
  plain := by
    intro slot' hlt hwith
    change state.store.tip < slot' at hlt
    rw [hdone.storeTip] at hlt
    obtain hle | ⟨entry, hentry, -⟩ := hwith
    · exact absurd hle (Nat.not_le.mpr hlt)
    · change entry ∈ state.store.pending at hentry
      rw [hdone.pending.2] at hentry
      cases hentry

theorem Orderly.applies {budget' : Budget} (hord : Orderly site sqlTip graph)
    (h : Applies site confirmedThrough slot budget graph graph' budget' result) :
    Orderly site sqlTip graph' ∧ (result = .ok () → slot ≤ graph'.tip) := by
  cases h with
  | failed => exact ⟨hord, nofun⟩
  | replayed hle hproof => exact ⟨hord, fun _ => hle⟩
  | plain hnext hplain hpend hknown =>
    refine ⟨{ hord with
      durable_le := ?_, sql_le := ?_, pending_next := ?_, plain := ?_ }, fun _ => le_rfl⟩
    · exact hord.durable_le.trans (by simp [hnext])
    · exact hord.sql_le.trans (by simp [hnext])
    · intro entry hentry
      exact ⟨hpend entry (hord.pending ▸ hentry), (hord.pending_next entry hentry).2⟩
    · intro slot' hlt hwith
      by_cases hslot : slot' = slot
      · exact hslot ▸ hplain
      · refine hord.plain slot' hlt (hwith.imp_left fun hle => ?_)
        change slot' ≤ slot at hle
        omega
  | begun hnext hgraph hpend hrun =>
    obtain ⟨-, hbegun⟩ | ⟨hok, -⟩ :=
      applyCommands_progress (decodeGraphBatch_eq_some _ hgraph).1 hrun
    · exact ⟨hord.begun hnext hgraph hbegun, nofun⟩
    · cases hok
  | done hnext hgraph hpend hrun =>
    obtain ⟨⟨_, herror⟩, -⟩ | ⟨-, hdone⟩ :=
      applyCommands_progress (decodeGraphBatch_eq_some _ hgraph).1 hrun
    · cases herror
    · exact ⟨hord.done hnext hdone, fun _ => le_rfl⟩

/-- The next slot of a graph in order goes to its commands. -/
theorem Orderly.applyGraphAt_next {graph : site.Graph} (hord : Orderly site sqlTip graph)
    (hgraph : decodeGraphBatch site.lib (site.log (graph.tip + 1)) = .ok (some commands))
    (confirmedThrough : ℕ) (budget : Budget) :
    (∀ pending ∈ graph.store.pending, pending = site.entry (graph.tip + 1)) ∧
      site.applyGraphAt confirmedThrough (graph.tip + 1) budget graph =
        finishSlot (graph.tip + 1) (applyCommands site.engine site.codec site.window
          (site.entry (graph.tip + 1)) confirmedThrough commands budget graph) := by
  have hpend : ∀ pending ∈ graph.store.pending, pending = site.entry (graph.tip + 1) := by
    intro pending hmem
    obtain ⟨hlt, hentry, -⟩ := hord.pending_next pending hmem
    have hslot : pending.slot = graph.tip + 1 := by
      by_contra hne
      have hplain := hord.plain (graph.tip + 1) (Nat.lt_succ_of_le hord.durable_le)
        (.inr ⟨pending, hmem, by omega⟩)
      rw [hgraph] at hplain
      cases hplain
    exact hslot ▸ hentry
  refine ⟨hpend, ?_⟩
  rw [← hord.pending] at hpend
  unfold applyGraphAt
  simp only [hgraph, applyGraph]
  cases hcase : graph.pending with
  | none => simp [entry]
  | some pending =>
    obtain rfl := hpend pending hcase
    simp [entry]

theorem Orderly.openGraph {reopened : ℕ}
    (hord : Orderly site sqlTip graph) (hle : reopened ≤ sqlTip)
    (h : openGraph site.engine reopened graph.store = .ok graph') :
    Orderly site reopened graph' := by
  simp only [Materializer.openGraph, bind_eq_ok] at h
  obtain ⟨_, -, _, hpend, _, -, hwoke⟩ := h
  cases hwoke
  have hpend := require_eq_ok.mp hpend
  refine ⟨rfl, rfl, le_max_left _ _, le_max_right _ _, ?_, ?_, ?_⟩
  · intro entry hentry
    exact hord.journal_le entry (mem_of_mem_pendingGraphJournal hentry)
  · intro entry hentry
    obtain ⟨hsql, htip⟩ := hpend entry hentry
    exact ⟨max_lt htip hsql, (hord.pending_next entry hentry).2⟩
  · intro slot hlt hwith
    apply hord.plain slot hlt
    refine hwith.imp_left fun hle' => ?_
    have hsql := hord.sql_le
    obtain hstore | hopen := le_max_iff.mp hle'
    · exact absurd hstore (Nat.not_le.mpr hlt)
    · exact (hopen.trans hle).trans hsql

theorem Orderly.applySlots
    {database : site.Database} {result : Checked site.Database}
    (hord : Orderly site sqlTip graph) (hslot : slot ≤ graph.tip + 1)
    (h : site.applySlots confirmedThrough count slot budget graph database = (graph', result)) :
    Orderly site sqlTip graph' ∧
      ∀ database', result = .ok database' → slot + count ≤ graph'.tip + 1 := by
  induction count generalizing slot budget graph database with
  | zero =>
    cases h
    exact ⟨hord, fun _ _ => hslot⟩
  | succ count ih =>
    simp only [GraphSite.applySlots] at h
    split at h
    · rename_i happly
      cases h
      exact ⟨(hord.applies (applyGraphAt_applies happly)).1, nofun⟩
    rename_i happly
    obtain ⟨hord', hpass⟩ := hord.applies (applyGraphAt_applies happly)
    split at h
    · cases h
      exact ⟨hord', nofun⟩
    · obtain ⟨hfinal, htip⟩ := ih hord' (Nat.succ_le_succ (hpass rfl)) h
      exact ⟨hfinal, fun database' hout => by have := htip database' hout; omega⟩

theorem Orderly.commit {sqlTip' : ℕ} {graph : site.Graph}
    (hord : Orderly site sqlTip graph) (hle : sqlTip' ≤ graph.tip) :
    Orderly site sqlTip' graph := { hord with sql_le := hle }

/-- The graph is in order beside the last commit, and commits go forward. -/
structure Node.Orderly (node : Node site) : Prop where
  nonempty : node.commits ≠ []
  graph : ∀ commit ∈ node.commits.head?, GraphSite.Orderly site commit.1 node.graph
  commits : node.commits.Pairwise fun later earlier => earlier.1 ≤ later.1

theorem Node.Orderly.beside (hord : node.Orderly) :
    ∃ commit, node.commits.head? = some commit ∧
      GraphSite.Orderly site commit.1 node.graph := by
  obtain ⟨commit, hsave⟩ := Option.isSome_iff_exists.mp
    (List.isSome_head?.mpr hord.nonempty)
  exact ⟨commit, hsave, hord.graph commit hsave⟩

theorem Node.orderly_initial (graph : site.engine.Graph) (database : site.Database) :
    (Node.initial site graph database).Orderly where
  nonempty := List.cons_ne_nil _ _
  commits := List.pairwise_singleton ..
  graph := by
    intro commit hsave
    cases hsave
    refine ⟨rfl, rfl, le_rfl, le_rfl, nofun, nofun, ?_⟩
    rintro slot hlt (hle | ⟨entry, hentry, -⟩)
    · exact absurd hle (Nat.not_le.mpr hlt)
    · cases hentry

variable {node next : Node site} {lost : ℕ}

theorem Node.Orderly.batch {commits : Bool}
    (hord : node.Orderly) (h : node.step (.batch count budget commits) = some next) :
    next.Orderly := by
  simp only [Node.step, Option.bind_eq_bind, Option.bind_eq_some_iff] at h
  obtain ⟨⟨tip, database⟩, hhead, h⟩ := h
  have hgraph := hord.graph _ hhead
  split at h
  · rename_i graph database' happly
    obtain ⟨hgraph', htip⟩ := hgraph.applySlots (Nat.succ_le_succ hgraph.sql_le) happly
    cases h
    cases commits with
    | false =>
      refine ⟨hord.nonempty, fun commit hsave => ?_, hord.commits⟩
      cases hhead.symm.trans hsave
      exact hgraph'
    | true =>
      refine ⟨List.cons_ne_nil _ _, fun commit hsave => ?_,
        List.pairwise_cons.mpr ⟨?_, hord.commits⟩⟩
      · cases hsave
        have := htip database' rfl
        exact hgraph'.commit (by omega)
      · intro earlier hago
        obtain ⟨rest, hrest⟩ := List.head?_eq_some_iff.mp hhead
        rw [hrest] at hago
        have hvow := hord.commits
        rw [hrest, List.pairwise_cons] at hvow
        obtain rfl | hmem := List.mem_cons.mp hago
        · exact Nat.le_add_right tip count
        · exact (hvow.1 earlier hmem).trans (Nat.le_add_right tip count)
  · rename_i happly
    cases h
    refine ⟨hord.nonempty, fun commit hsave => ?_, hord.commits⟩
    cases hhead.symm.trans hsave
    exact (hgraph.applySlots (Nat.succ_le_succ hgraph.sql_le) happly).1

/-- A start keeps some of the commits and opens the graph beside the last of them. -/
theorem Node.step_crash :
    node.step (.crash lost) = some next ↔ ∃ tip database rest,
      node.commits.drop lost = (tip, database) :: rest ∧
        openGraph site.engine tip node.graph.store = .ok next.graph ∧
          next.commits = (tip, database) :: rest := by
  simp only [Node.step, Option.bind_eq_bind, Option.bind_eq_some_iff, toOption_eq_some]
  constructor
  · rintro ⟨⟨tip, database⟩, hhead, graph, hopen, hnext⟩
    obtain ⟨rest, hrest⟩ := List.head?_eq_some_iff.mp hhead
    cases hnext
    exact ⟨tip, database, rest, hrest, hopen, hrest⟩
  · rintro ⟨tip, database, rest, hdrop, hopen, hvow⟩
    exact ⟨(tip, database), by rw [hdrop]; rfl, next.graph, hopen, by rw [hdrop, ← hvow]⟩

theorem Node.Orderly.crash (hord : node.Orderly)
    (h : node.step (.crash lost) = some next) : next.Orderly := by
  obtain ⟨tip, database, rest, hdrop, hopen, hvow⟩ := Node.step_crash.mp h
  have hkept : ((tip, database) :: rest).Sublist node.commits := hdrop ▸ List.drop_sublist ..
  refine ⟨hvow ▸ List.cons_ne_nil _ _, fun commit hsave => ?_, hvow ▸ hord.commits.sublist hkept⟩
  rw [hvow] at hsave
  cases hsave
  -- The last commit is the one that was kept, or a later one.
  cases hold : node.commits with
  | nil => simp [hold] at hkept
  | cons last earlier =>
    have hlast := hord.graph last (by rw [hold]; rfl)
    refine hlast.openGraph ?_ hopen
    have hpairs := hord.commits
    rw [hold, List.pairwise_cons] at hpairs
    obtain rfl | hmem := List.mem_cons.mp (hold ▸ hkept.subset List.mem_cons_self)
    · exact le_rfl
    · exact hpairs.1 _ hmem

theorem Node.Orderly.step {event : NodeEvent} (hord : node.Orderly)
    (h : node.step event = some next) : next.Orderly := by
  cases event with
  | batch => exact hord.batch h
  | crash => exact hord.crash h

theorem Node.Orderly.run {final : Node site} {events : List NodeEvent}
    (hord : node.Orderly) (h : runFrom Node.step node events = some final) : final.Orderly := by
  induction events generalizing node with
  | nil =>
    cases h
    exact hord
  | cons event rest ih =>
    obtain ⟨next, hstep, hrest⟩ := runFrom_cons.mp h
    exact ih (hord.step hstep) hrest

end GraphSite

end Rhiza.Materializer
