import Rhiza.Materializer.GraphOutcome
import Rhiza.Materializer.GraphRecovery

/-! # Starts after a crash

A start takes the commits that the database has kept and opens the graph beside the last of
them. The log can be taken up from there exactly if the journal still has every graph slot
between that commit and the graph's own tip.
-/

namespace Rhiza.Materializer

open Foundations Commands

namespace GraphSite

variable {site : GraphSite} {graph₀ : site.engine.Graph} {database₀ : site.Database}
  {confirmedThrough slot count sqlTip lost : ℕ} {budget : Budget} {graph graph' : site.Graph}
  {database database' : site.Database} {before : Reference site}
  {entry : GraphJournalEntry} {store : GraphStore site.engine.Graph} {node : Node site}

/-! ## What a completed batch leaves -/

theorem Applies.bounds {budget' : Budget}
    (h : Applies site confirmedThrough slot budget graph graph' budget' (.ok ())) :
    graph'.tip ≤ max graph.tip slot ∧
      (graph'.store.pending = graph.store.pending ∨ graph'.store.pending = none) := by
  cases h with
  | replayed => exact ⟨le_max_left _ _, .inl rfl⟩
  | plain => exact ⟨le_max_right _ _, .inl rfl⟩
  | done hnext hgraph hpend hrun =>
    obtain ⟨⟨_, herror⟩, -⟩ | ⟨-, hdone⟩ :=
      applyCommands_progress (decodeGraphBatch_eq_some _ hgraph).1 hrun
    · cases herror
    · exact ⟨le_max_right _ _, .inr hdone.pending.2⟩

/-- A batch that is completed has applied its last slot to what the batch without it left. -/
theorem applySlots_last
    (h : site.applySlots confirmedThrough (count + 1) slot budget graph database =
      (graph', .ok database')) :
    ∃ middle before budget₁ budget₂,
      site.applySlots confirmedThrough count slot budget graph database = (middle, .ok before) ∧
        Applies site confirmedThrough (slot + count) budget₁ middle graph' budget₂ (.ok ()) ∧
          site.applySQL (slot + count) (site.log (slot + count)) before = .ok database' := by
  induction count generalizing slot budget graph database with
  | zero =>
    simp only [GraphSite.applySlots] at h
    split at h
    · cases h
    rename_i happly
    split at h
    · cases h
    rename_i hsql
    cases h
    exact ⟨_, _, _, _, rfl, applyGraphAt_applies happly, hsql⟩
  | succ count ih =>
    rw [GraphSite.applySlots] at h ⊢
    split at h
    · cases h
    rename_i happly
    split at h
    · cases h
    rename_i hsql
    obtain ⟨middle, before, budget₁, budget₂, hfront, hlast⟩ := ih h
    rw [Nat.add_right_comm] at hlast
    exact ⟨middle, before, budget₁, budget₂, by simpa only [happly, hsql] using hfront, hlast⟩

theorem applySlots_bounds
    (h : site.applySlots confirmedThrough count (slot + 1) budget graph database =
      (graph', .ok database')) :
    graph'.tip ≤ max graph.tip (slot + count) ∧
      (graph'.store.pending = graph.store.pending ∨ graph'.store.pending = none) := by
  induction count generalizing graph' database' with
  | zero =>
    cases h
    exact ⟨le_max_left _ _, .inl rfl⟩
  | succ count ih =>
    obtain ⟨middle, before, budget₁, budget₂, hfront, happlies, -⟩ := applySlots_last h
    obtain ⟨htip, hpend⟩ := ih hfront
    obtain ⟨htip', hpend'⟩ := happlies.bounds
    refine ⟨by omega, ?_⟩
    obtain heq | hnone := hpend'
    · exact hpend.imp heq.trans heq.trans
    · exact .inr hnone

/-- A graph that is beside a completed batch and has not gone further is the one that the log
determines. -/
theorem Sound.settled_at
    (hsound : Sound site graph₀ database₀ sqlTip graph) (htip : graph.tip = slot)
    (hpend : graph.store.pending = none)
    {reference : Reference site} (href : site.reference graph₀ database₀ slot = some reference) :
    graph.store.bare = reference.store := by
  subst htip
  cases hsound.reached with
  | settled hreach hlast hnone hstore =>
    obtain ⟨hsame, -⟩ := reference_plain hreach href hsound.orderly.durable_le
      fun between hlt hle => hsound.orderly.plain between hlt (.inl hle)
    rw [hstore, hsame]
  | partway hreach hlast hsome =>
    rw [hpend] at hsome
    cases hsome

/-! ## A run without crashes -/

theorem applyCommands_settles {lib : Library} {engine : LatticeEngine lib.Float} {codec : Codec}
    {window : ℕ} {commands : List (GraphCommand lib.Float)} {budget' : Budget}
    {state state' : GraphState engine.Graph}
    (h : applyCommands engine codec window entry confirmedThrough commands budget state =
      (state', budget', .ok ())) :
    settleAll engine codec window entry.slot state.durableTip commands state.store.bare =
      .ok state'.store.bare := by
  induction commands generalizing budget state with
  | nil =>
    cases h
    rfl
  | cons command rest ih =>
    simp only [applyCommands] at h
    split at h
    · cases h
    rename_i store hsave
    split at h
    · cases h
    unfold commitCommand at hsave
    split at hsave
    · cases hsave
    rename_i changed hend
    have hbare := GraphStore.bare_mark hsave
    rw [settleAll, bare_settleCommand, hend]
    simp only [Except.map, ← hbare]
    exact ih h

section Slot

variable (hpre : site.reference graph₀ database₀ slot = some before)
  (hsql : site.applySQL (slot + 1) (site.log (slot + 1)) before.database = .ok database)
include hpre hsql

theorem reference_eq_plain (hplain : decodeGraphBatch site.lib (site.log (slot + 1)) = .ok none)
    (hknown : site.known (site.log (slot + 1)) = true) :
    site.reference graph₀ database₀ (slot + 1) = some { before with database } := by
  rw [reference, hpre, Option.bind_eq_bind, Option.bind_some, hsql, hplain]
  simp only [Except.toOption, Option.bind_eq_bind, Option.bind_some, hknown, if_true]

theorem reference_eq_graph {commands : List (GraphCommand site.lib.Float)}
    (hgraph : decodeGraphBatch site.lib (site.log (slot + 1)) = .ok (some commands))
    (hend : settleAll site.engine site.codec site.window (slot + 1) before.last commands
      before.store = .ok store) :
    site.reference graph₀ database₀ (slot + 1) = some ⟨store, slot + 1, database⟩ := by
  rw [reference, hpre, Option.bind_eq_bind, Option.bind_some, hsql, hgraph]
  simp only [Except.toOption, Option.bind_eq_bind, Option.bind_some, hend]

end Slot

/-- The state of a new materializer's graph. -/
def newGraph (site : GraphSite) (graph₀ : site.engine.Graph) : site.Graph :=
  { store := .fresh graph₀, tip := 0, durableTip := 0, pending := none }

/-- Applying the log from the start gives what the log determines. -/
theorem reference_of_clean
    (h : site.applySlots 0 count 1 none (site.newGraph graph₀) database₀ =
      (graph, .ok database)) :
    site.reference graph₀ database₀ count = some ⟨graph.store.bare, graph.durableTip, database⟩ ∧
      graph.tip = count := by
  induction count generalizing graph database with
  | zero =>
    cases h
    exact ⟨rfl, rfl⟩
  | succ count ih =>
    obtain ⟨middle, before, budget₁, budget₂, hfront, happlies, hsql⟩ := applySlots_last h
    obtain ⟨href, htip⟩ := ih hfront
    rw [Nat.add_comm 1 count] at happlies hsql
    cases happlies with
    | replayed hle hproof =>
      rw [htip] at hle
      exact absurd hle (Nat.not_succ_le_self count)
    | plain hnext hplain hpend hknown =>
      exact ⟨reference_eq_plain href hsql hplain hknown, rfl⟩
    | done hnext hgraph hpend hrun =>
      exact ⟨reference_eq_graph href hsql hgraph (applyCommands_settles hrun), rfl⟩

/-! ## The journal beside a commit -/

/-- The journal has every graph slot above a commit of the database that the graph has
applied. -/
def CoveredFrom (site : GraphSite) (tip : ℕ) (store : GraphStore site.engine.Graph) : Prop :=
  ∀ slot, tip < slot → slot ≤ store.tip → IsGraph site slot → site.entry slot ∈ store.journal

theorem reference_last_le {reference : Reference site}
    (href : site.reference graph₀ database₀ slot = some reference) : reference.last ≤ slot := by
  induction slot generalizing reference with
  | zero =>
    cases href
    exact le_rfl
  | succ slot ih =>
    obtain ⟨before, hpre, -, hstep⟩ := reference_succ href
    obtain ⟨-, -, -, hlast⟩ | ⟨_, -, -, hlast⟩ := hstep
    · rw [hlast]
      exact (ih hpre).trans (Nat.le_succ slot)
    · exact hlast.le

theorem isGraph_of_last {reference : Reference site} (hpos : 0 < slot)
    (href : site.reference graph₀ database₀ slot = some reference)
    (hlast : reference.last = slot) : IsGraph site slot := by
  obtain ⟨slot, rfl⟩ := Nat.exists_eq_succ_of_ne_zero (Nat.ne_of_gt hpos)
  obtain ⟨before, hpre, -, hstep⟩ := reference_succ href
  obtain ⟨-, -, -, hsame⟩ | ⟨commands, hgraph, -⟩ := hstep
  · have := reference_last_le hpre
    omega
  · exact ⟨commands, hgraph⟩

theorem Reached.isGraph_tip
    (hreach : Reached site graph₀ database₀ store) (hpos : 0 < store.tip) :
    IsGraph site store.tip := by
  cases hreach with
  | settled href hlast => exact isGraph_of_last hpos href hlast
  | partway href hlast => exact isGraph_of_last hpos href hlast

/-- The entry of the highest slot is the last one of an ascending journal. -/
theorem getLast?_of_ascending {journal : List GraphJournalEntry}
    (hascending : journal.Pairwise fun earlier later => earlier.slot < later.slot)
    (hle : ∀ other ∈ journal, other.slot ≤ entry.slot) (hmem : entry ∈ journal) :
    journal.getLast? = some entry := by
  have hne : journal ≠ [] := List.ne_nil_of_mem hmem
  have hsplit := List.dropLast_append_getLast hne
  rw [List.getLast?_eq_some_getLast hne]
  rw [← hsplit, List.mem_append, List.mem_singleton] at hmem
  obtain hfront | hlast := hmem
  · rw [← hsplit, List.pairwise_append] at hascending
    have hlt := hascending.2.2 entry hfront _ (List.mem_singleton_self _)
    exact absurd (hle _ (List.getLast_mem hne)) (Nat.not_le.mpr hlt)
  · rw [hlast]

/-- Beside a commit from which the journal covers the graph, the graph opens. -/
theorem Sound.openGraph {reopened : ℕ}
    (hsound : Sound site graph₀ database₀ sqlTip graph) (hle : reopened ≤ sqlTip)
    (hspan : CoveredFrom site reopened graph.store) :
    ∃ graph', Materializer.openGraph site.engine reopened graph.store = .ok graph' ∧
      Sound site graph₀ database₀ reopened graph' := by
  have hord := hsound.orderly
  have hpend : ∀ pending ∈ graph.store.pending,
      reopened < pending.slot ∧ graph.store.tip < pending.slot := by
    intro pending hmem
    have hnext := (hord.pending_next pending hmem).1
    exact ⟨(hle.trans hord.sql_le).trans_lt hnext, hord.durable_le.trans_lt hnext⟩
  have hcover : graph.store.tip ≤ reopened ∨
      ((GraphStore.pendingGraphJournal graph.store.journal reopened).getLast?.any
        (·.slot = graph.store.tip)) = true := by
    obtain hahead | hpass := Nat.lt_or_ge reopened graph.store.tip
    swap
    · exact .inl hpass
    have hmem := hspan _ hahead le_rfl (hsound.reached.isGraph_tip (Nat.zero_lt_of_lt hahead))
    have hlast : (GraphStore.pendingGraphJournal graph.store.journal reopened).getLast? =
        some (site.entry graph.store.tip) :=
      getLast?_of_ascending (hsound.ascending.sublist (List.dropWhile_sublist _))
        (fun other hother => hord.journal_le other (mem_of_mem_pendingGraphJournal hother))
        (mem_pendingGraphJournal hmem hahead)
    rw [hlast]
    exact .inr (decide_eq_true rfl)
  have hopen : Materializer.openGraph site.engine reopened graph.store = .ok
      { store := { graph.store with
          journal := GraphStore.pendingGraphJournal graph.store.journal reopened }
        tip := max graph.store.tip reopened, durableTip := graph.store.tip
        pending := graph.store.pending } := by
    simp only [Materializer.openGraph, bind_eq_ok]
    exact ⟨(), require_eq_ok.mpr hord.journal_le, (), require_eq_ok.mpr hpend, (),
      require_eq_ok.mpr hcover, trivial⟩
  refine ⟨_, hopen, hord.openGraph hle hopen, ?_, ?_, ?_, ?_⟩
  · exact fun entry hentry => hsound.genuine entry (mem_of_mem_pendingGraphJournal hentry)
  · exact hsound.ascending.sublist (List.dropWhile_sublist _)
  · exact fun slot hlt hslot hgraph => mem_pendingGraphJournal (hspan slot hlt hslot hgraph) hlt
  · cases hsound.reached with
    | settled href hlast hnone hstore => exact .settled href hlast hnone hstore
    | partway href hlast hsome hgraph hpos hnotAll hstore =>
      exact .partway href hlast hsome hgraph hpos hnotAll hstore

theorem Sound.commit {sqlTip' : ℕ}
    (hsound : Sound site graph₀ database₀ sqlTip graph) (hle : sqlTip ≤ sqlTip')
    (htip : sqlTip' ≤ graph.tip) : Sound site graph₀ database₀ sqlTip' graph :=
  { hsound with
    orderly := hsound.orderly.commit htip
    covers := fun slot hlt => hsound.covers slot (hle.trans_lt hlt) }

/-! ## Nodes -/

/-- The graph is sound beside the last commit, and every commit is of the database that the
log determines. -/
structure Node.Sound (graph₀ : site.engine.Graph) (database₀ : site.Database)
    (node : Node site) : Prop where
  orderly : node.Orderly
  graph : ∀ commit ∈ node.commits.head?, GraphSite.Sound site graph₀ database₀ commit.1 node.graph
  databases : ∀ commit ∈ node.commits, DatabaseAt site graph₀ database₀ commit.1 commit.2

/-- What a crash may lose: whatever commit the database falls back to, the journal covers the
graph from there. -/
def Covered (node : Node site) : NodeEvent → Prop
  | .batch .. => True
  | .crash lost => ∀ commit ∈ (node.commits.drop lost).head?,
      CoveredFrom site commit.1 node.graph.store

theorem Node.sound_initial (graph₀ : site.engine.Graph) (database₀ : site.Database) :
    (Node.initial site graph₀ database₀).Sound graph₀ database₀ where
  orderly := Node.orderly_initial graph₀ database₀
  graph := by
    intro commit hsave
    refine ⟨(Node.orderly_initial graph₀ database₀).graph commit hsave, nofun, .nil, ?_,
      .settled rfl rfl rfl rfl⟩
    intro slot hlt hle
    exact absurd (Nat.zero_lt_of_lt hlt) (Nat.not_lt.mpr hle)
  databases := by
    intro commit hsave
    obtain rfl := List.mem_singleton.mp hsave
    exact ⟨_, rfl, rfl⟩

theorem Node.Sound.batch {next : Node site} {commits : Bool}
    (hsound : node.Sound graph₀ database₀) (hapt : Applicable site graph₀ database₀)
    (h : node.step (.batch count budget commits) = some next) : next.Sound graph₀ database₀ := by
  have hord := hsound.orderly.batch h
  simp only [Node.step, Option.bind_eq_bind, Option.bind_eq_some_iff] at h
  obtain ⟨⟨tip, database⟩, hhead, h⟩ := h
  have hgraph := hsound.graph _ hhead
  have hdb := hsound.databases _ (List.mem_of_mem_head? hhead)
  split at h
  · rename_i graph database' happly
    obtain ⟨hgraph', hdb'⟩ := hgraph.applySlots happly hapt hdb
    cases h
    cases commits with
    | false =>
      refine ⟨hord, fun commit hsave => ?_, hsound.databases⟩
      cases hhead.symm.trans hsave
      exact hgraph'
    | true =>
      refine ⟨hord, fun commit hsave => ?_,
        List.forall_mem_cons.mpr ⟨hdb' database' rfl, hsound.databases⟩⟩
      have hbeside := hord.graph commit hsave
      cases hsave
      exact hgraph'.commit (Nat.le_add_right tip count) hbeside.sql_le
  · rename_i happly
    cases h
    refine ⟨hord, fun commit hsave => ?_, hsound.databases⟩
    cases hhead.symm.trans hsave
    exact (hgraph.applySlots happly hapt hdb).1

/-- A commit that is kept is not later than the last one. -/
theorem Node.Orderly.kept_le (hord : node.Orderly)
    {last kept : ℕ × site.Database} (hlast : node.commits.head? = some last)
    (hkept : (node.commits.drop lost).head? = some kept) : kept.1 ≤ last.1 := by
  obtain ⟨earlier, hvow⟩ := List.head?_eq_some_iff.mp hlast
  have hmem := List.mem_of_mem_drop (List.mem_of_mem_head? hkept)
  have hpairs := hord.commits
  rw [hvow] at hmem hpairs
  obtain rfl | hago := List.mem_cons.mp hmem
  · exact le_rfl
  · exact (List.pairwise_cons.mp hpairs).1 kept hago

theorem Node.Sound.crash (hsound : node.Sound graph₀ database₀)
    (hspan : Covered node (.crash lost)) (hlost : lost < node.commits.length) :
    ∃ next, node.step (.crash lost) = some next ∧ next.Sound graph₀ database₀ := by
  obtain ⟨last, hlast, -⟩ := hsound.orderly.beside
  obtain ⟨⟨tip, database⟩, rest, hdrop⟩ :=
    List.exists_cons_of_ne_nil (List.drop_eq_nil_iff.not.mpr (Nat.not_le.mpr hlost))
  have hkept : (node.commits.drop lost).head? = some (tip, database) := by rw [hdrop]; rfl
  obtain ⟨graph, hopen, hgraph⟩ := (hsound.graph last hlast).openGraph
    (hsound.orderly.kept_le hlast hkept) (hspan _ hkept)
  have hstep : node.step (.crash lost) = some ⟨graph, (tip, database) :: rest⟩ :=
    Node.step_crash.mpr ⟨tip, database, rest, hdrop, hopen, rfl⟩
  refine ⟨_, hstep, hsound.orderly.crash hstep, ?_, ?_⟩
  · intro commit hsave
    cases hsave
    exact hgraph
  · intro commit hsave
    rw [← hdrop] at hsave
    exact hsound.databases commit (List.mem_of_mem_drop hsave)

theorem Node.Sound.step {next : Node site} {event : NodeEvent}
    (hsound : node.Sound graph₀ database₀) (hapt : Applicable site graph₀ database₀)
    (hspan : Covered node event) (h : node.step event = some next) :
    next.Sound graph₀ database₀ := by
  cases event with
  | batch => exact hsound.batch hapt h
  | crash lost =>
    have hlost : lost < node.commits.length := by
      obtain ⟨tip, database, kept, hdrop, -⟩ := Node.step_crash.mp h
      by_contra hall
      rw [List.drop_eq_nil_of_le (Nat.le_of_not_lt hall)] at hdrop
      cases hdrop
    obtain ⟨next', hstep', hsound'⟩ := hsound.crash hspan hlost
    cases h.symm.trans hstep'
    exact hsound'

/-! ## Taking the log up again -/

theorem step_batch_of_ok {tip : ℕ} (hhead : node.commits.head? = some (tip, database))
    (happly : site.applySlots tip count (tip + 1) none node.graph database =
      (graph, .ok database')) :
    node.step (.batch count none true) =
      some ⟨graph, (tip + count, database') :: node.commits⟩ := by
  simp only [Node.step, hhead, Option.bind_eq_bind, Option.bind_some, happly, if_true]

theorem applySlots_of_commits {next : Node site} {tip : ℕ}
    (hhead : node.commits.head? = some (tip, database))
    (h : node.step (.batch count none true) = some next)
    (hsave : next.commits.head? = some (tip + count, database')) :
    site.applySlots tip count (tip + 1) none node.graph database =
      (next.graph, .ok database') := by
  simp only [Node.step, hhead, Option.bind_eq_bind, Option.bind_some] at h
  split at h
  · rename_i graph database'' happly
    cases h
    obtain ⟨-, rfl⟩ := Prod.mk.inj (Option.some_inj.mp hsave)
    exact happly
  · rename_i happly
    cases h
    -- A batch that fails has at least one slot, and the tip does not move.
    obtain ⟨htip, -⟩ := Prod.mk.inj (Option.some_inj.mp (hhead.symm.trans hsave))
    obtain rfl : count = 0 := by omega
    cases happly

/-- However many slots are applied next, without a failure, the batch is committed and leaves
the database of a run without crashes; and its graph as well, once no slot is left that the
graph had begun before. -/
def TakesUp (graph₀ : site.engine.Graph) (database₀ : site.Database) (node : Node site) : Prop :=
  ∀ tip database, node.commits.head? = some (tip, database) → ∀ count, ∃ next clean final,
    node.step (.batch count none true) = some next ∧
    (Node.initial site graph₀ database₀).step (.batch (tip + count) none true) = some clean ∧
    next.commits.head? = some (tip + count, final) ∧
    clean.commits.head? = some (tip + count, final) ∧
    (node.graph.tip ≤ tip + count →
      (∀ pending ∈ node.graph.store.pending, pending.slot ≤ tip + count) →
        next.graph.store.bare = clean.graph.store.bare)

/-- A run without crashes commits every number of slots. -/
def CleanRuns (site : GraphSite) (graph₀ : site.engine.Graph) (database₀ : site.Database) : Prop :=
  ∀ count, ∃ clean database,
    (Node.initial site graph₀ database₀).step (.batch count none true) = some clean ∧
      clean.commits.head? = some (count, database)

theorem CleanRuns.reference (hclean : CleanRuns site graph₀ database₀) (count : ℕ) :
    ∃ clean reference,
      (Node.initial site graph₀ database₀).step (.batch count none true) = some clean ∧
        site.reference graph₀ database₀ count = some reference ∧
          clean.commits.head? = some (count, reference.database) ∧
            clean.graph.store.bare = reference.store := by
  obtain ⟨clean, database, hstep, hsave⟩ := hclean count
  have happly := applySlots_of_commits rfl hstep ((Nat.zero_add count).symm ▸ hsave)
  obtain ⟨href, -⟩ := reference_of_clean happly
  exact ⟨clean, _, hstep, href, hsave, rfl⟩

theorem CleanRuns.applicable (hclean : CleanRuns site graph₀ database₀) :
    Applicable site graph₀ database₀ := by
  intro slot
  obtain ⟨-, reference, -, href, -⟩ := hclean.reference slot
  exact ⟨reference, href⟩

theorem Node.Sound.takesUp (hsound : node.Sound graph₀ database₀)
    (hclean : CleanRuns site graph₀ database₀) : TakesUp graph₀ database₀ node := by
  intro tip database hhead count
  have hapt := hclean.applicable
  have hgraph := hsound.graph _ hhead
  have hdb := hsound.databases _ (List.mem_of_mem_head? hhead)
  obtain ⟨graph, final, happly⟩ := hgraph.applySlots_ok hapt le_rfl
    hgraph.orderly.sql_le hdb
  obtain ⟨hsound', hfinal⟩ := hgraph.applySlots happly hapt hdb
  obtain ⟨reference, href, rfl⟩ := hfinal final rfl
  obtain ⟨clean, reference', hcleanStep, href', hsave, hstore⟩ := hclean.reference (tip + count)
  cases href.symm.trans href'
  refine ⟨_, clean, _, step_batch_of_ok hhead happly, hcleanStep, rfl, hsave, ?_⟩
  intro htip hpend
  obtain ⟨hord, hreach⟩ := hgraph.orderly.applySlots (Nat.succ_le_succ hgraph.orderly.sql_le) happly
  have hlow := hreach _ rfl
  obtain ⟨hhigh, hnone⟩ := applySlots_bounds happly
  rw [hstore]
  refine hsound'.settled_at (by omega) ?_ href
  obtain hsame | hnone := hnone
  · -- What is marked after the batch is above it; what was marked before is not.
    cases hmark : graph.store.pending with
    | none => rfl
    | some pending =>
      have hpre := hpend pending (hsame.symm.trans hmark)
      have habove := (hord.pending_next pending hmark).1
      omega
  · exact hnone

/-- Slots that the graph has passed go through only with evidence. -/
theorem applySlots_evidence
    (h : site.applySlots confirmedThrough count (slot + 1) budget graph database =
      (graph', .ok database')) (hpass : slot + count ≤ graph.tip) :
    graph' = graph ∧ ∀ between, slot < between → between ≤ slot + count →
      IsGraph site between → site.entry between ∈ graph.store.journal := by
  induction count generalizing graph' database' with
  | zero =>
    cases h
    exact ⟨rfl, fun between hlt hle => absurd hle (Nat.not_le.mpr hlt)⟩
  | succ count ih =>
    obtain ⟨middle, before, budget₁, budget₂, hfront, happlies, -⟩ := applySlots_last h
    obtain ⟨rfl, hproof⟩ := ih hfront (by omega)
    rw [Nat.add_right_comm] at happlies
    cases happlies with
    | replayed hle hlast =>
      refine ⟨rfl, fun between hlt hle' hgraph => ?_⟩
      obtain hfront | rfl := Nat.le_or_eq_of_le_succ hle'
      · exact hproof between hlt hfront hgraph
      · obtain ⟨commands, hjobs⟩ := hgraph
        exact hlast.resolve_right fun hplain =>
          nomatch Except.ok.inj (hplain.symm.trans hjobs)
    | plain | done => omega

/-- A start that loses what the journal does not cover can not be taken up from. -/
theorem Node.covered_of_takesUp {next : Node site}
    (h : node.step (.crash lost) = some next) (htakesUp : TakesUp graph₀ database₀ next) :
    Covered node (.crash lost) := by
  obtain ⟨tip, database, rest, hdrop, hopen, hvow⟩ := Node.step_crash.mp h
  intro commit hsave slot hlt hle hgraph
  rw [hdrop] at hsave
  cases hsave
  have hhead : next.commits.head? = some (tip, database) := by rw [hvow]; rfl
  obtain ⟨final, clean, database', hstep, -, hfinal, -⟩ := htakesUp tip database hhead (slot - tip)
  have happly := applySlots_of_commits hhead hstep hfinal
  simp only [openGraph, bind_eq_ok] at hopen
  obtain ⟨_, -, _, -, _, -, hwoke⟩ := hopen
  have hnext := Except.ok.inj hwoke
  have hpass : tip + (slot - tip) ≤ next.graph.tip := by
    rw [← hnext]
    exact le_max_of_le_left (by omega)
  have hmem := (applySlots_evidence happly hpass).2 slot hlt (by omega) hgraph
  rw [← hnext] at hmem
  exact mem_of_mem_pendingGraphJournal hmem

/-- As long as crashes lose no commit that the journal relies on, a materializer takes up the
log where its database is and comes to what a run without crashes comes to. The next crash
leaves that true exactly if the journal covers the graph from the commit that is kept. -/
theorem restart_takesUp_iff_covered (site : GraphSite) (graph₀ : site.engine.Graph)
    (database₀ : site.Database) (hclean : CleanRuns site graph₀ database₀)
    (events : List NodeEvent) (node : Node site)
    (hguarded : Guarded Node.step Covered (Node.initial site graph₀ database₀) events)
    (h : runFrom Node.step (Node.initial site graph₀ database₀) events = some node) :
    TakesUp graph₀ database₀ node ∧ ∀ lost < node.commits.length,
      ((∃ next, node.step (.crash lost) = some next ∧ TakesUp graph₀ database₀ next) ↔
        Covered node (.crash lost)) := by
  have hsound : node.Sound graph₀ database₀ :=
    Guarded.invariant (fun hstate hcovered hstep => hstate.step hclean.applicable hcovered hstep)
      hguarded h (Node.sound_initial graph₀ database₀)
  refine ⟨hsound.takesUp hclean, fun lost hlost => ⟨?_, fun hcovered => ?_⟩⟩
  · rintro ⟨next, hstep, htakesUp⟩
    exact Node.covered_of_takesUp hstep htakesUp
  · obtain ⟨next, hstep, hnext⟩ := hsound.crash hcovered hlost
    exact ⟨next, hstep, hnext.takesUp hclean⟩

/-! ## Two commits and a crash -/

/-- A log with graph commands in its first two slots. -/
def itemSite : GraphSite :=
  let cypher := bytesOf "CREATE (:Item)"
  { cypherSite cypher with log := fun slot =>
    if slot ≤ 2 then (cypherSite cypher).log slot else [] }

/-- Each of the two slots is applied and committed on its own. -/
def itemCommits : List NodeEvent := [.batch 1 none true, .batch 1 none true]

theorem isGraph_itemSite (hle : slot ≤ 2) : IsGraph itemSite slot := by
  obtain ⟨commands, hjobs⟩ : ∃ commands,
      acceptedCypher (bytesOf "CREATE (:Item)") = some commands :=
    Option.isSome_iff_exists.mp (by decide +kernel)
  refine ⟨commands, ?_⟩
  have hlog : itemSite.log slot = (cypherSite (bytesOf "CREATE (:Item)")).log 1 := if_pos hle
  rw [hlog]
  exact (acceptedCypher_eq_some hjobs).1

/-- Above its first slots the log has nothing to do. -/
theorem applySlots_itemSite {graph : itemSite.Graph} (hslot : 2 ≤ slot)
    (htip : graph.tip = slot) (hpend : graph.pending = none) :
    ∃ graph', itemSite.applySlots 0 count (slot + 1) none graph () = (graph', .ok ()) := by
  induction count generalizing slot graph with
  | zero => exact ⟨graph, rfl⟩
  | succ count ih =>
    have hlog : itemSite.log (slot + 1) = [] := if_neg (by omega)
    have happly : itemSite.applyGraphAt 0 (slot + 1) none graph =
        ({ graph with tip := slot + 1 }, none, .ok ()) := by
      have hgot : decodeGraphBatch itemSite.lib [] = .ok none := rfl
      have hknown : itemSite.known [] = true := rfl
      unfold applyGraphAt
      rw [hlog, hgot]
      simp [applyGraph, hpend, htip, hknown]
    have hsql : itemSite.applySQL (slot + 1) (itemSite.log (slot + 1)) () = .ok () := rfl
    simp only [applySlots, happly, hsql]
    exact ih (by omega) rfl hpend

theorem applied_of_isOk {Graph : Type}
    {applied : GraphState Graph × Budget × Except GraphError Unit}
    (hbudget : applied.2.1 = none) (hok : applied.2.2.isOk = true) :
    applied = (applied.1, none, .ok ()) := by
  obtain ⟨graph, budget, result⟩ := applied
  obtain rfl : budget = none := hbudget
  cases result with
  | error => cases hok
  | ok => rfl

theorem cleanRuns_itemSite : CleanRuns itemSite [] () := by
  suffices happly : ∀ count, ∃ graph,
      itemSite.applySlots 0 count 1 none (itemSite.newGraph []) () = (graph, .ok ()) by
    intro count
    obtain ⟨graph, hgraph⟩ := happly count
    exact ⟨_, (), step_batch_of_ok rfl hgraph, by rw [Nat.zero_add]; rfl⟩
  let first := itemSite.applyGraphAt 0 1 none (itemSite.newGraph [])
  let second := itemSite.applyGraphAt 0 2 none first.1
  have hruns : (first.2.1 = none ∧ first.2.2.isOk = true) ∧
      (second.2.1 = none ∧ second.2.2.isOk = true) ∧
        second.1.tip = 2 ∧ second.1.pending = none := by
    decide +kernel
  obtain ⟨⟨hbudget, hok⟩, ⟨hbudget', hok'⟩, htip, hpend⟩ := hruns
  have hfirst : itemSite.applyGraphAt 0 1 none (itemSite.newGraph []) = (first.1, none, .ok ()) :=
    applied_of_isOk hbudget hok
  have htwo : itemSite.applyGraphAt 0 2 none first.1 = (second.1, none, .ok ()) :=
    applied_of_isOk hbudget' hok'
  have hsql : ∀ slot, itemSite.applySQL slot (itemSite.log slot) () = .ok () := fun _ => rfl
  intro count
  match count with
  | 0 => exact ⟨_, rfl⟩
  | 1 =>
    simp only [applySlots, hfirst, hsql]
    exact ⟨_, rfl⟩
  | count + 2 =>
    simp only [applySlots, hfirst, htwo, hsql]
    exact applySlots_itemSite le_rfl htip hpend

theorem run_itemCommits : ∃ node : Node itemSite,
    runFrom Node.step (Node.initial itemSite [] ()) itemCommits = some node ∧
      node.commits = [(2, ()), (1, ()), (0, ())] ∧ node.graph.store.tip = 2 ∧
        node.graph.store.journal = [itemSite.entry 2] := by
  obtain ⟨node, hnode, hvow, hfacts⟩ : ∃ node : Node itemSite,
      runFrom Node.step (Node.initial itemSite [] ()) itemCommits = some node ∧
        node.commits.map Prod.fst = [2, 1, 0] ∧ node.graph.store.tip = 2 ∧
          node.graph.store.journal = [itemSite.entry 2] := by
    decide +kernel
  have hinj : Function.Injective (Prod.fst : ℕ × Unit → ℕ) :=
    fun first second heq => Prod.ext heq rfl
  exact ⟨node, hnode, List.map_injective_iff.mpr hinj hvow, hfacts⟩

/-- The database has reported both commits, and with the second one the journal has dropped
the first slot; after a crash that loses them nothing shows that the graph has applied it. -/
theorem restart_not_takesUp : ¬ ∀ (site : GraphSite) (graph₀ : site.engine.Graph)
    (database₀ : site.Database), CleanRuns site graph₀ database₀ →
    ∀ (events : List NodeEvent) (node : Node site),
      runFrom Node.step (Node.initial site graph₀ database₀) events = some node →
      ∀ lost < node.commits.length,
        ∃ next, node.step (.crash lost) = some next ∧ TakesUp graph₀ database₀ next := by
  intro hall
  obtain ⟨node, hnode, hcommits, htip, hjournal⟩ := run_itemCommits
  obtain ⟨next, hstep, htakesUp⟩ := hall itemSite [] () cleanRuns_itemSite itemCommits node hnode 2
    (by rw [hcommits]; decide)
  have hmem := Node.covered_of_takesUp hstep htakesUp (0, ()) (by rw [hcommits]; rfl) 1
    Nat.zero_lt_one (by rw [htip]; decide) (isGraph_itemSite (by decide))
  rw [hjournal, List.mem_singleton] at hmem
  exact absurd (congrArg GraphJournalEntry.slot hmem) (show (1 : ℕ) ≠ 2 by decide)

/-- A crash that loses only the second commit is recovered from. -/
theorem restart_takesUp_second : ∃ node : Node itemSite,
    runFrom Node.step (Node.initial itemSite [] ()) (itemCommits ++ [.crash 1]) = some node ∧
      TakesUp [] () node := by
  obtain ⟨node, hnode, hcommits, htip, hjournal⟩ := run_itemCommits
  have hcovered : Covered node (.crash 1) := by
    intro commit hcommit slot hlt hle hgraph
    rw [hcommits] at hcommit
    cases hcommit
    obtain rfl : slot = 2 := by
      change 1 < slot at hlt
      omega
    rw [hjournal]
    exact List.mem_singleton_self _
  have hguarded : Guarded Node.step Covered (Node.initial itemSite [] ()) itemCommits :=
    ⟨trivial, fun _ _ => ⟨trivial, fun _ _ => trivial⟩⟩
  obtain ⟨next, hstep, htakesUp⟩ := ((restart_takesUp_iff_covered itemSite [] () cleanRuns_itemSite
    itemCommits node hguarded hnode).2 1 (by rw [hcommits]; decide)).mpr hcovered
  exact ⟨next, runFrom_append.mpr ⟨node, hnode, runFrom_cons.mpr ⟨next, hstep, rfl⟩⟩, htakesUp⟩

end GraphSite

end Rhiza.Materializer
