import Rhiza.Materializer.GraphReference

/-! # Recovery of graph and database

A graph slot above the last commit of the database is either in the journal, which tells that
it need not be applied again, or the marked one of which some commands are settled. As long as
every crash leaves that true, the materializer starts again and takes the log up from the
database's slot to the state that the log alone determines. A journal entry is dropped when
the database has reported a later commit; a crash that loses the commit leaves a slot that the
graph has passed and cannot prove.
-/

namespace Rhiza.Materializer

open Foundations Commands

theorem mem_pendingGraphJournal {entries : List GraphJournalEntry} {through : ℕ}
    {entry : GraphJournalEntry} (hmem : entry ∈ entries) (hlt : through < entry.slot) :
    entry ∈ GraphStore.pendingGraphJournal entries through := by
  induction entries with
  | nil => cases hmem
  | cons first rest ih =>
    rw [GraphStore.pendingGraphJournal, List.dropWhile_cons]
    split
    · rename_i hle
      obtain rfl | hrest := List.mem_cons.mp hmem
      · exact absurd (of_decide_eq_true hle) (Nat.not_le.mpr hlt)
      · exact ih hrest
    · exact hmem

namespace GraphSite

variable {site : GraphSite}

/-- How far the store has got with the log. -/
inductive Reached (site : GraphSite) (graph : site.engine.Graph) (database : site.Database)
    (store : GraphStore site.engine.Graph) : Prop
  /-- All slots up to the tip are settled, and no other command is. -/
  | settled {reference} (href : site.reference graph database store.tip = some reference)
    (hlast : reference.last = store.tip) (hpend : store.pending = none)
    (hstore : store.bare = reference.store)
  /-- In addition, some but not all commands of the marked slot are. -/
  | partway {reference entry commands done}
    (href : site.reference graph database store.tip = some reference)
    (hlast : reference.last = store.tip) (hpend : store.pending = some entry)
    (hgraph : decodeGraphBatch site.lib (site.log entry.slot) = .ok (some commands))
    (hsome : 0 < done) (hnotAll : done < commands.length)
    (hstore : settleAll site.engine site.codec site.window entry.slot store.tip
      (commands.take done) reference.store = .ok store.bare)

structure Sound (site : GraphSite) (graph₀ : site.engine.Graph) (database₀ : site.Database)
    (sqlTip : ℕ) (graph : site.Graph) : Prop where
  orderly : Orderly site sqlTip graph
  genuine : ∀ entry ∈ graph.store.journal, entry = site.entry entry.slot
  ascending : graph.store.journal.Pairwise fun earlier later => earlier.slot < later.slot
  covers : ∀ slot, sqlTip < slot → slot ≤ graph.store.tip → IsGraph site slot →
    site.entry slot ∈ graph.store.journal
  reached : Reached site graph₀ database₀ graph.store

variable {graph₀ : site.engine.Graph} {database₀ : site.Database}

/-- The log can be applied: a run without crashes goes through every slot. -/
def Applicable (site : GraphSite) (graph₀ : site.engine.Graph) (database₀ : site.Database) : Prop :=
  ∀ slot, ∃ reference, site.reference graph₀ database₀ slot = some reference

/-- The commands of the next graph slot, with the store they start from and how many of them
are settled. -/
structure Underway (site : GraphSite) (graph₀ : site.engine.Graph) (database₀ : site.Database)
    (graph : site.Graph) (commands : List (GraphCommand site.lib.Float)) (done : ℕ)
    (start : GraphStore site.engine.Graph) : Prop where
  lt : done < commands.length
  begin : ∃ reference, site.reference graph₀ database₀ graph.store.tip = some reference ∧
    reference.last = graph.store.tip ∧ reference.store = start
  store : settleAll site.engine site.codec site.window (graph.tip + 1) graph.durableTip
    (commands.take done) start = .ok graph.store.bare
  all : ∃ reference, site.reference graph₀ database₀ (graph.tip + 1) = some reference ∧
    reference.last = graph.tip + 1 ∧
    settleAll site.engine site.codec site.window (graph.tip + 1) graph.durableTip commands
      start = .ok reference.store

variable {graph : site.Graph} {commands : List (GraphCommand site.lib.Float)} {sqlTip slot : ℕ}
  {budget budget' : Budget}

section Sound

variable (hsound : Sound site graph₀ database₀ sqlTip graph)
  (hapt : Applicable site graph₀ database₀)
  (hgraph : decodeGraphBatch site.lib (site.log (graph.tip + 1)) = .ok (some commands))
  (hpend : ∀ pending ∈ graph.pending, pending = site.entry (graph.tip + 1))
include hsound hapt hgraph hpend

theorem Sound.underway :
    ∃ done start, Underway site graph₀ database₀ graph commands done start := by
  have hord := hsound.orderly
  obtain ⟨after, hafter⟩ := hapt (graph.tip + 1)
  obtain ⟨before, hpre, -, hstep⟩ := reference_succ hafter
  obtain ⟨hplain, -⟩ | ⟨commands', hjobs', hend, hlast'⟩ := hstep
  · rw [hgraph] at hplain
    cases hplain
  obtain rfl : commands = commands' := by
    rw [hgraph] at hjobs'
    exact Option.some_inj.mp (Except.ok.inj hjobs')
  -- No slot between the store's tip and this one has graph commands.
  have hsame : ∀ {reference}, site.reference graph₀ database₀ graph.store.tip = some reference →
      reference.last = graph.store.tip →
      before.store = reference.store ∧ before.last = graph.durableTip := by
    intro reference href hlast
    obtain ⟨hstore, hbeforeLast⟩ := reference_plain href hpre hord.durable_le
      fun between hlt hle => hord.plain between hlt (.inl hle)
    exact ⟨hstore, by rw [hbeforeLast, hlast, hord.durable]⟩
  have hne : 0 < commands.length := List.length_pos_of_ne_nil (decodeGraphBatch_eq_some _ hgraph).1
  cases hsound.reached with
  | settled href hlast hnone hstore =>
    obtain ⟨hbeforeStore, hbeforeLast⟩ := hsame href hlast
    refine ⟨0, before.store, hne, ⟨_, href, hlast, hbeforeStore.symm⟩, ?_, after, hafter, hlast',
      hbeforeLast ▸ hend⟩
    rw [List.take_zero, hstore, hbeforeStore]
    rfl
  | partway href hlast hsome hgraph' hpos hnotAll hstore =>
    obtain ⟨hbeforeStore, hbeforeLast⟩ := hsame href hlast
    have hentry := hpend _ (hord.pending.trans hsome)
    subst hentry
    cases Except.ok.inj (hgraph.symm.trans hgraph')
    refine ⟨_, before.store, hnotAll, ⟨_, href, hlast, hbeforeStore.symm⟩, ?_, after, hafter,
      hlast', hbeforeLast ▸ hend⟩
    rw [hbeforeStore, hord.durable]
    exact hstore

theorem Sound.begun {state : site.Graph} {error : GraphError}
    (hrun : applyCommands site.engine site.codec site.window (site.entry (graph.tip + 1)) sqlTip
      commands budget graph = (state, budget', .error error)) :
    Sound site graph₀ database₀ sqlTip state := by
  have hord := hsound.orderly
  obtain ⟨done, start, hunder⟩ := hsound.underway hapt hgraph hpend
  obtain ⟨reference, -, -, hall⟩ := hunder.all
  obtain ⟨-, hbegun⟩ | ⟨hok, -⟩ := applyCommands_progress (decodeGraphBatch_eq_some _ hgraph).1 hrun
  swap
  · cases hok
  obtain ⟨hok, -⟩ | ⟨-, hstate⟩ := applyCommands_reaches hrun
    (Nat.lt_succ_of_le (hord.durable ▸ hord.durable_le)) hall hunder.store
    (Nat.zero_le done) hunder.lt rfl
  · cases hok
  obtain rfl | ⟨done', hpos, hlt, hmark, hstore⟩ := hstate
  · exact hsound
  · obtain ⟨before, hpre, hlast, rfl⟩ := hunder.begin
    refine ⟨hord.begun rfl hgraph hbegun, hbegun.journal ▸ hsound.genuine,
      hbegun.journal ▸ hsound.ascending, ?_, ?_⟩
    · rw [hbegun.storeTip, hbegun.journal]
      exact hsound.covers
    · rw [← hbegun.storeTip] at hpre hlast
      refine .partway hpre hlast hmark hgraph hpos hlt ?_
      rw [hbegun.storeTip, ← hord.durable]
      exact hstore

theorem Sound.done {state : site.Graph}
    (hrun : applyCommands site.engine site.codec site.window (site.entry (graph.tip + 1)) sqlTip
      commands budget graph = (state, budget', .ok ())) :
    Sound site graph₀ database₀ sqlTip
      { state with tip := graph.tip + 1, durableTip := graph.tip + 1 } := by
  have hord := hsound.orderly
  obtain ⟨done, start, hunder⟩ := hsound.underway hapt hgraph hpend
  obtain ⟨reference, href, hlast, hall⟩ := hunder.all
  obtain ⟨⟨_, herror⟩, -⟩ | ⟨-, hdone⟩ :=
    applyCommands_progress (decodeGraphBatch_eq_some _ hgraph).1 hrun
  · cases herror
  obtain ⟨-, hstore⟩ | ⟨⟨_, herror⟩, -⟩ := applyCommands_reaches hrun
    (Nat.lt_succ_of_le (hord.durable ▸ hord.durable_le)) hall hunder.store
    (Nat.zero_le done) hunder.lt rfl
  swap
  · cases herror
  have hpre : ∀ entry ∈ GraphStore.pendingGraphJournal graph.store.journal sqlTip,
      entry.slot < graph.tip + 1 := fun entry hentry =>
    Nat.lt_succ_of_le ((hord.journal_le entry (mem_of_mem_pendingGraphJournal hentry)).trans
      hord.durable_le)
  refine ⟨hord.done rfl hdone, ?_, ?_, ?_, ?_⟩
  · change ∀ entry ∈ state.store.journal, entry = site.entry entry.slot
    rw [hdone.journal]
    intro entry hentry
    obtain hold | hnew := List.mem_append.mp hentry
    · exact hsound.genuine entry (mem_of_mem_pendingGraphJournal hold)
    · obtain rfl := List.mem_singleton.mp hnew
      rfl
  · change state.store.journal.Pairwise _
    rw [hdone.journal, List.pairwise_append]
    refine ⟨hsound.ascending.sublist (List.dropWhile_sublist _), List.pairwise_singleton .., ?_⟩
    intro earlier hago later hlater
    obtain rfl := List.mem_singleton.mp hlater
    exact hpre earlier hago
  · intro slot hlt hle hisGraph
    change slot ≤ state.store.tip at hle
    rw [hdone.storeTip] at hle
    change site.entry slot ∈ state.store.journal
    rw [hdone.journal, List.mem_append, List.mem_singleton]
    by_cases hslot : slot = graph.tip + 1
    · exact .inr (hslot ▸ rfl)
    · refine .inl (mem_pendingGraphJournal (hsound.covers slot hlt ?_ hisGraph) hlt)
      -- A graph slot that is not above the tip is not above the store's tip either.
      by_contra habove
      have hplain := hord.plain slot (Nat.lt_of_not_le habove)
        (.inl (Nat.le_of_lt_succ (Nat.lt_of_le_of_ne hle hslot)))
      obtain ⟨commands', hjobs'⟩ := hisGraph
      rw [hplain] at hjobs'
      cases hjobs'
  · have htip : site.reference graph₀ database₀ state.store.tip = some reference := by
      rw [hdone.storeTip]
      exact href
    exact .settled htip (hlast.trans hdone.storeTip.symm) hdone.pending.2
      (Except.ok.inj (hstore.symm.trans hall))

end Sound

theorem Sound.applies {graph graph' : site.Graph}
    {result : Except GraphError Unit} (hsound : Sound site graph₀ database₀ sqlTip graph)
    (hapt : Applicable site graph₀ database₀)
    (h : Applies site sqlTip slot budget graph graph' budget' result) :
    Sound site graph₀ database₀ sqlTip graph' := by
  have hord := (hsound.orderly.applies h).1
  cases h with
  | failed | replayed => exact hsound
  | plain => exact { hsound with orderly := hord }
  | begun hnext hgraph hpend hrun =>
    subst hnext
    exact hsound.begun hapt hgraph hpend hrun
  | done hnext hgraph hpend hrun =>
    subst hnext
    exact hsound.done hapt hgraph hpend hrun

/-! ## Applying what is left -/

/-- A slot that the graph has passed is not applied again. -/
theorem Sound.replays (hsound : Sound site graph₀ database₀ sqlTip graph) (hsql : sqlTip < slot)
    (hle : slot ≤ graph.tip) {commands : Option (List (GraphCommand site.lib.Float))}
    (hgot : decodeGraphBatch site.lib (site.log slot) = .ok commands)
    (hknown : commands = none → site.known (site.log slot) = true) :
    site.applyGraphAt sqlTip slot none graph = (graph, none, .ok ()) := by
  have hord := hsound.orderly
  have hpend : ∀ pending ∈ graph.pending, slot < pending.slot := by
    intro pending hmem
    exact Nat.lt_of_le_of_lt hle (hord.pending_next pending (hord.pending ▸ hmem)).1
  have hfirst : ¬ (graph.pending.any fun pending => pending.slot < slot ∨
      (slot = pending.slot ∧ (commands.isNone ∨ pending ≠ site.entry slot))) = true := by
    rw [Option.any_eq_true]
    rintro ⟨pending, hmem, hbad⟩
    have := hpend pending hmem
    have := of_decide_eq_true hbad
    omega
  unfold GraphSite.entry at hfirst
  unfold applyGraphAt
  simp only [hgot, applyGraph]
  rw [if_neg hfirst, if_neg (by omega), if_pos hle]
  cases hfind : graph.store.journal.find? (·.slot = slot) with
  | some found =>
    have hslot : found.slot = slot := by simpa using List.find?_some hfind
    have hentry := hsound.genuine found (List.mem_of_find?_eq_some hfind)
    rw [hslot] at hentry
    simp only [hentry, entry, ne_eq, not_true_eq_false, if_false]
  | none =>
    cases commands with
    | none => simp [hknown rfl]
    | some commands =>
      have habove : slot ≤ graph.store.tip := by
        by_contra habove
        have hplain := hord.plain slot (Nat.lt_of_not_le habove) (.inl hle)
        rw [hgot] at hplain
        cases hplain
      have hmem := hsound.covers slot hsql habove ⟨commands, hgot⟩
      have hnone := List.find?_eq_none.mp hfind _ hmem
      exact absurd (decide_eq_true rfl) hnone

theorem Orderly.applyGraphAt_plain {confirmedThrough : ℕ}
    {budget : Budget} (hord : Orderly site sqlTip graph)
    (hplain : decodeGraphBatch site.lib (site.log (graph.tip + 1)) = .ok none)
    (hknown : site.known (site.log (graph.tip + 1)) = true) :
    site.applyGraphAt confirmedThrough (graph.tip + 1) budget graph =
      ({ graph with tip := graph.tip + 1 }, budget, .ok ()) := by
  have hpend : ∀ pending ∈ graph.pending, graph.tip + 1 < pending.slot := by
    intro pending hmem
    obtain ⟨hlt, -, commands, hgraph⟩ := hord.pending_next pending (hord.pending ▸ hmem)
    refine Nat.lt_of_le_of_ne hlt fun heq => ?_
    rw [← heq, hplain] at hgraph
    cases hgraph
  unfold applyGraphAt
  simp only [hplain, applyGraph]
  cases hcase : graph.pending with
  | none => simp [hknown]
  | some pending =>
    have hlt := hpend pending hcase
    simp [hknown, Nat.ne_of_lt hlt, Nat.lt_of_succ_lt hlt]

/-- Without a failed transaction every slot above the database's goes through. -/
theorem Sound.applyGraphAt_ok (hsound : Sound site graph₀ database₀ sqlTip graph)
    (hapt : Applicable site graph₀ database₀) (hsql : sqlTip < slot) (hle : slot ≤ graph.tip + 1) :
    ∃ graph', site.applyGraphAt sqlTip slot none graph = (graph', none, .ok ()) := by
  have hord := hsound.orderly
  obtain ⟨before, rfl⟩ : ∃ before, slot = before + 1 := ⟨slot - 1, by omega⟩
  obtain ⟨after, hafter⟩ := hapt (before + 1)
  obtain ⟨_, -, -, hstep⟩ := reference_succ hafter
  obtain hpass | hnext := Nat.le_or_eq_of_le_succ hle
  · obtain ⟨hplain, hknown, -⟩ | ⟨commands, hgraph, -⟩ := hstep
    · exact ⟨graph, hsound.replays hsql hpass hplain fun _ => hknown⟩
    · exact ⟨graph, hsound.replays hsql hpass hgraph nofun⟩
  obtain rfl := Nat.succ.inj hnext
  obtain ⟨hplain, hknown, -⟩ | ⟨commands, hgraph, -⟩ := hstep
  · exact ⟨_, hord.applyGraphAt_plain hplain hknown⟩
  · obtain ⟨hpend, hjobs⟩ := hord.applyGraphAt_next hgraph sqlTip none
    obtain ⟨done, start, hunder⟩ := hsound.underway hapt hgraph (hord.pending ▸ hpend)
    obtain ⟨reference, -, -, hall⟩ := hunder.all
    obtain ⟨state, hrun⟩ := applyCommands_completes sqlTip hpend
      (fun last hlast => Nat.lt_succ_of_le ((hord.journal_le last hlast).trans hord.durable_le))
      (Nat.lt_succ_of_le (hord.durable ▸ hord.durable_le)) hall hunder.store
      (Nat.zero_le done) List.drop_zero
    rw [hjobs, hrun]
    exact ⟨_, rfl⟩

/-! ## Batches -/

/-- The database of the log up to a slot. -/
def DatabaseAt (site : GraphSite) (graph₀ : site.engine.Graph) (database₀ : site.Database)
    (slot : ℕ) (database : site.Database) : Prop :=
  ∃ reference, site.reference graph₀ database₀ slot = some reference ∧
    reference.database = database

variable {database : site.Database}

theorem DatabaseAt.applySQL {slot : ℕ} (hdb : DatabaseAt site graph₀ database₀ slot database)
    (hapt : Applicable site graph₀ database₀) :
    ∃ database', site.applySQL (slot + 1) (site.log (slot + 1)) database = .ok database' ∧
      DatabaseAt site graph₀ database₀ (slot + 1) database' := by
  obtain ⟨before, hpre, rfl⟩ := hdb
  obtain ⟨after, hafter⟩ := hapt (slot + 1)
  obtain ⟨before', hpre', hsql, -⟩ := reference_succ hafter
  cases hpre.symm.trans hpre'
  exact ⟨after.database, hsql, after, hafter, rfl⟩

theorem Sound.applySlots {count slot : ℕ} {budget : Budget} {graph graph' : site.Graph}
    {result : Checked site.Database}
    (h : site.applySlots sqlTip count (slot + 1) budget graph database = (graph', result))
    (hsound : Sound site graph₀ database₀ sqlTip graph) (hapt : Applicable site graph₀ database₀)
    (hdb : DatabaseAt site graph₀ database₀ slot database) :
    Sound site graph₀ database₀ sqlTip graph' ∧
      ∀ database', result = .ok database' →
        DatabaseAt site graph₀ database₀ (slot + count) database' := by
  induction count generalizing slot budget graph database with
  | zero =>
    cases h
    refine ⟨hsound, fun database' hout => ?_⟩
    cases hout
    exact hdb
  | succ count ih =>
    simp only [GraphSite.applySlots] at h
    split at h
    · rename_i happly
      cases h
      exact ⟨hsound.applies hapt (applyGraphAt_applies happly), (by simp)⟩
    rename_i happly
    have hsound' := hsound.applies hapt (applyGraphAt_applies happly)
    obtain ⟨database', hsql, hdb'⟩ := hdb.applySQL hapt
    rw [hsql] at h
    have hrest := ih h hsound' hdb'
    rwa [Nat.add_right_comm slot 1 count] at hrest

theorem Sound.applySlots_ok {count slot : ℕ} (hsound : Sound site graph₀ database₀ sqlTip graph)
    (hapt : Applicable site graph₀ database₀) (hsql : sqlTip ≤ slot)
    (hle : slot ≤ graph.tip) (hdb : DatabaseAt site graph₀ database₀ slot database) :
    ∃ graph' database',
      site.applySlots sqlTip count (slot + 1) none graph database = (graph', .ok database') := by
  induction count generalizing slot graph database with
  | zero => exact ⟨graph, database, rfl⟩
  | succ count ih =>
    obtain ⟨graph', happly⟩ := hsound.applyGraphAt_ok hapt (Nat.lt_succ_of_le hsql)
      (Nat.succ_le_succ hle)
    obtain ⟨database', hsql', hdb'⟩ := hdb.applySQL hapt
    have happlies := applyGraphAt_applies happly
    have hpass := (hsound.orderly.applies happlies).2 rfl
    simp only [GraphSite.applySlots, happly, hsql']
    exact ih (hsound.applies hapt happlies) (hsql.trans (Nat.le_succ slot)) hpass
      hdb'

end GraphSite

end Rhiza.Materializer
