import Deliberation.Graph.Recorder
import Deliberation.Proofs.Aggregation.Counts
import Deliberation.Proofs.Graph.Coverage
import Deliberation.Proofs.Session.Snapshot

/-!
Walks through stored discussions, for every database that only requests have changed. A walk goes
through a copy of a discussion, a closure is looked for in the store, and yet they come to the same
ideas: the copy has all ideas that live links lead to, as these never leave the discussion.
-/

namespace Deliberation

open Store Walk

/-- Writing down the calls of a visitor changes nothing about what it cuts. -/
theorem Visitor.CutsBy.recorded {σ ρ : Type} {visitor : Visitor (Journaled σ) ρ}
    {isCut : Idea → Prop} (h : visitor.CutsBy isCut) : visitor.recorded.CutsBy isCut where
  visit idea level above := by
    rintro ⟨⟨state, calls⟩, entries⟩
    obtain ⟨outcome, after, hvisit, houtcome⟩ := h.visit idea level above ⟨state, entries⟩
    refine ⟨outcome, ⟨(after.state, calls ++ [.visited idea level above]), after.entries⟩,
      ?_, houtcome⟩
    simp only [Visitor.recorded, hvisit]
  finish idea level own below := by
    rintro ⟨⟨state, calls⟩, entries⟩
    obtain ⟨came, after, hfinish⟩ := h.finish idea level own below ⟨state, entries⟩
    refine ⟨came, ⟨(after.state, calls ++ [.finished idea level own below]), after.entries⟩, ?_⟩
    simp only [Visitor.recorded, hfinish]

namespace Store

variable {store : Store} {discussion root : Id} {graph : Graph}

namespace IsGraphOf

/-- Without cuts the ways through the graph are the ways along live links. -/
theorem leads_iff (h : store.IsGraphOf discussion graph) {near far : graph.Node} :
    Leads graph (fun _ => False) near far ↔ store.Linked (graph.idOf near) (graph.idOf far) := by
  rw [Leads, h.mem_children_iff, not_false_eq_true, true_and]

/-- What live links lead to from a node has a node too, to which the graph leads. -/
theorem exists_node_of_linked (h : store.IsGraphOf discussion graph)
    (hconsistent : store.Consistent) {node : graph.Node} {id : Id}
    (hpath : Relation.ReflTransGen store.Linked (graph.idOf node) id) :
    ∃ other, graph.idOf other = id ∧
      Relation.ReflTransGen (Leads graph fun _ => False) node other := by
  induction hpath with
  | refl => exact ⟨node, rfl, .refl⟩
  | tail _ hlast ih =>
    obtain ⟨near, rfl, hnear⟩ := ih
    obtain ⟨link, row, hrow, hlive, hsource, htarget⟩ := hlast
    have hhere : store.isLiveIdeaOf discussion row.source := by
      rw [hsource]
      exact h.isLiveIdeaOf_idOf near
    rw [hconsistent.isLiveIdeaOf_ends hrow hlive] at hhere
    obtain ⟨far, hfar⟩ := h.exists_node?_iff.mpr hhere
    have hid := h.hasDistinctIds.node?_eq_some_iff.mp hfar
    refine ⟨far, hid.trans htarget, hnear.tail (h.leads_iff.mpr ?_)⟩
    exact ⟨link, row, hrow, hlive, hsource, hid.symm⟩

/-- Walking along edges of the graph is following live links in the store. -/
theorem reaches_iff (h : store.IsGraphOf discussion graph) (hconsistent : store.Consistent)
    {node other : graph.Node} : Relation.ReflTransGen (Leads graph fun _ => False) node other ↔
      Relation.ReflTransGen store.Linked (graph.idOf node) (graph.idOf other) := by
  constructor
  · intro hpath
    exact Relation.ReflTransGen.lift graph.idOf (fun _ _ => h.leads_iff.mp) node other hpath
  · intro hpath
    obtain ⟨found, hfound, hreached⟩ := h.exists_node_of_linked hconsistent hpath
    obtain rfl := h.hasDistinctIds.idOf_inj.mp hfound
    exact hreached

/-- The nodes that can be reached from a node, each of them once, have the ids of its closure. -/
theorem perm_closure (h : store.IsGraphOf discussion graph) (hconsistent : store.Consistent)
    {node : graph.Node} {nodes : List graph.Node} (hnodup : nodes.Nodup)
    (hreached :
      ∀ other, other ∈ nodes ↔ Relation.ReflTransGen (Leads graph fun _ => False) node other)
    {below : List Id} (hbelow : store.IsClosureOf .forward [graph.idOf node] true below) :
    (nodes.map graph.idOf).Perm below := by
  have hdistinct : (nodes.map graph.idOf).Nodup :=
    hnodup.map fun _ _ hsame => h.hasDistinctIds.idOf_inj.mp hsame
  refine (List.perm_ext_iff_of_nodup hdistinct (hbelow.1.imp Int.ne_of_lt)).mpr fun id => ?_
  rw [hconsistent.mem_closure_iff hbelow, List.mem_map]
  constructor
  · rintro ⟨other, hother, rfl⟩
    exact (h.reaches_iff hconsistent).mp ((hreached other).mp hother)
  · intro hpath
    obtain ⟨other, hid, hother⟩ := h.exists_node_of_linked hconsistent hpath
    exact ⟨other, (hreached other).mpr hother, hid⟩

end IsGraphOf

theorem graphAround_of_live (hlegible : store.Legible) (hversions : store.TellsLiveVersions)
    (hlive : store.isLiveIdeaOf discussion root) (hgraph : store.graph discussion = .ok graph) :
    store.graphAround root = .ok (some graph) := by
  obtain ⟨row, hrow, hrowLive, hhome⟩ := isLiveIdeaOf_iff.mp hlive
  obtain ⟨found, hfound, -, hdiscussion, -⟩ := hlegible.findLiveIdea_of_live hversions hrow hrowLive
  simp only [graphAround, hfound, hdiscussion, hhome, hgraph, bind, Except.bind, pure, Except.pure]

/-- Nothing is walked from an idea that can be looked for and is not live. -/
theorem visit_of_dead {σ ρ : Type} {found : Option Idea} (hdead : store.isLiveIdea root = false)
    (hfind : store.findIdea root = .ok found) (order : WalkOrder)
    (visitor : Visitor (Journaled σ) ρ) (state : σ) :
    store.visit root order visitor state = (return none, state) := by
  have haround : store.graphAround root = .ok none := by
    simp only [graphAround, findLiveIdea_of_dead hdead, hfind, Except.map, bind, Except.bind, pure,
      Except.pure]
  simp only [visit, haround]

/-- A walk from a live idea calls its visitor for what is below the idea, and for nothing else. -/
theorem Consistent.visit_covers (h : store.Consistent) (hlegible : store.Legible)
    (hversions : store.TellsLiveVersions) {σ ρ : Type} {visitor : Visitor (Journaled σ) ρ}
    (huncut : visitor.CutsBy fun _ => False) (order : WalkOrder) (hlive : store.isLiveIdea root)
    (state : σ) {below : List Id} (hbelow : store.IsClosureOf .forward [root] true below) :
    let walk := store.visit root order visitor.recorded (state, [])
    let visited := walk.2.2.filterMap Callback.visitedIdea?
    let finished := walk.2.2.filterMap Callback.finishedIdea?
    ∃ came, walk.1.result = .ok came ∧ (visited.map (·.id)).Perm below ∧ finished.Perm visited ∧
      ∀ idea ∈ visited, store.findIdea idea.id = .ok (some idea) := by
  intro walk visited finished
  obtain ⟨row, hrow, hrowLive⟩ := isLiveIdea_iff.mp hlive
  have hhere : store.isLiveIdeaOf row.discussion root :=
    isLiveIdeaOf_iff.mpr ⟨row, hrow, hrowLive, rfl⟩
  obtain ⟨ideas, links, graph, hloads⟩ := h.exists_loads hlegible hversions row.discussion
  have hgraph := hloads.isGraph
  obtain ⟨node, hnode⟩ := hgraph.exists_node?_iff.mpr hhere
  obtain rfl := hgraph.hasDistinctIds.node?_eq_some_iff.mp hnode
  obtain ⟨came, after, seen, left, hwalk, hnodup, hreached, hperm, htold⟩ :=
    Graph.walk_covers huncut.recorded visitor.recorded_records order hnode
      (s := ⟨(state, []), [⟨[], .snapshotLoaded graph.ideaCount graph.linkCount⟩]⟩) rfl
  have haround := graphAround_of_live hlegible hversions hhere hloads.puts
  have hdone : walk = (.within (.traversal (graph.idOf node) order) ⟨after.entries, .ok came⟩,
      after.state) := by
    simp only [walk, visit, haround, hwalk]
  have hvisited : visited = seen.map graph.idea := by
    simp only [visited, hdone]
    exact htold.1
  have hfinished : finished = left.map graph.idea := by
    simp only [finished, hdone]
    exact htold.2
  refine ⟨came, by rw [hdone]; rfl, ?_, ?_, ?_⟩
  · rw [hvisited, List.map_map]
    exact hgraph.perm_closure h hnodup hreached hbelow
  · rw [hvisited, hfinished]
    exact hperm.map graph.idea
  · intro idea hidea
    rw [hvisited] at hidea
    obtain ⟨other, -, rfl⟩ := List.mem_map.mp hidea
    exact hgraph.stored _ (List.get_mem _ other)

/-- What holds after the visit of the idea that a walk starts from, and is kept by all calls below,
holds of the state that the walk ends with. -/
theorem Consistent.visit_keeps (h : store.Consistent) (hlegible : store.Legible)
    (hversions : store.TellsLiveVersions) (hlive : store.isLiveIdeaOf discussion root)
    {idea : Idea} (hidea : store.findIdea root = .ok (some idea)) {σ ρ : Type}
    {visitor : Visitor (Journaled σ) ρ} {P : σ → Prop}
    (hkeeps : visitor.KeepsBelow fun s => P s.state) (order : WalkOrder) {state : σ}
    (hfirst : ∀ entries, P (visitor.visit idea 0 none ⟨state, entries⟩).2.state) :
    P (store.visit root order visitor state).2 := by
  obtain ⟨ideas, links, graph, hloads⟩ := h.exists_loads hlegible hversions discussion
  have hgraph := hloads.isGraph
  obtain ⟨node, hnode⟩ := hgraph.exists_node?_iff.mpr hlive
  have hid := hgraph.hasDistinctIds.node?_eq_some_iff.mp hnode
  have hstored := hgraph.stored _ (List.get_mem _ node)
  have hsame : graph.idea node = idea := by
    change store.findIdea (graph.idOf node) = _ at hstored
    rw [hid, hidea] at hstored
    exact (Option.some.inj (Except.ok.inj hstored)).symm
  have haround := graphAround_of_live hlegible hversions hlive hloads.puts
  simp only [visit, haround]
  exact Graph.walk_keeps hkeeps order hnode (by rw [hsame]; exact hfirst _)

end Store

namespace Session

/-- Whatever was asked of a new database before: a walk, in either order and with any visitor that
never cuts and never fails, visits each idea at or below a live idea once and finishes it once, and
there are no other calls; these are the ideas that either strategy finds below it, and the visitor
gets them as they are stored. From an idea that is not there, or that has been deleted and whose
version can still be told, nothing is walked. The calls are written down by the visitor itself,
which does not change the walk. -/
theorem storeAfter_visit_covers (medium : Medium) (watcher : Watcher) (history : History)
    {σ ρ : Type} (visitor : Visitor (Journaled σ) ρ) (huncut : visitor.CutsBy fun _ => False)
    (order : WalkOrder) (root : Id) (state : σ) :
    let store := storeAfter medium watcher history
    let walk := store.visit root order visitor.recorded (state, [])
    let visited := walk.2.2.filterMap Callback.visitedIdea?
    let finished := walk.2.2.filterMap Callback.finishedIdea?
    Prod.map id Prod.fst walk = store.visit root order visitor state ∧
    (store.isLiveIdea root → ∃ came below,
      walk.1.result = .ok came ∧
      (∀ strategy : ClosureStrategy, (strategy.descendants store root true).result = .ok below) ∧
      below.Nodup ∧ (visited.map (·.id)).Perm below ∧ (finished.map (·.id)).Perm below ∧
      ∀ idea, idea ∈ visited ∨ idea ∈ finished → store.findIdea idea.id = .ok (some idea)) ∧
    (store.ideas.get? root = none → walk.2.2 = [] ∧ walk.1.result = .ok none) ∧
    (∀ row version, store.ideas.get? root = some row → row.isLive = false →
      row.version = .whole version → 0 ≤ version ∧ version < 4294967296 →
      walk.2.2 = [] ∧ walk.1.result = .ok none) := by
  intro store walk visited finished
  have hconsistent : store.Consistent := storeAfter_consistent medium watcher history
  have hlegible : store.Legible := storeAfter_legible medium watcher history
  have hversions : store.TellsLiveVersions := storeAfter_tellsLiveVersions medium watcher history
  refine ⟨store.visit_recorded root order visitor state, ?_, ?_, ?_⟩
  · intro hlive
    obtain ⟨below, hfound, hbelow⟩ := expansion_result store .forward [root] true
    obtain ⟨came, hcame, hvisited, hfinished, hstored⟩ :=
      hconsistent.visit_covers hlegible hversions huncut order hlive state hbelow
    refine ⟨came, below, hcame, fun strategy => (strategy.descendants_result root).trans hfound,
      hbelow.1.imp Int.ne_of_lt, hvisited, (hfinished.map (·.id)).trans hvisited, ?_⟩
    rintro idea (hidea | hidea)
    · exact hstored idea hidea
    · exact hstored idea (hfinished.mem_iff.mp hidea)
  · intro hnone
    have hdead : store.isLiveIdea root = false := by
      rw [isLiveIdea, hnone]
    have hfind : store.findIdea root = .ok none := by
      rw [findIdea, find, hnone]
      rfl
    have hwalk : walk = (return none, (state, [])) :=
      visit_of_dead hdead hfind order visitor.recorded (state, [])
    rw [hwalk]
    exact ⟨rfl, rfl⟩
  · rintro row version hrow hdeleted hversion hfits
    have hdead : store.isLiveIdea root = false := by
      rw [isLiveIdea, hrow]
      exact hdeleted
    have htold : row.version.read 10 = .ok version.toNat := by
      rw [hversion, Version.read, if_pos hfits]
    obtain ⟨idea, hread⟩ := (hlegible.ideas root row hrow).exists_read root htold
    have hfind : store.findIdea root = .ok (some idea) := find_eq_ok_some_iff.mpr ⟨row, hrow, hread⟩
    have hwalk : walk = (return none, (state, [])) :=
      visit_of_dead hdead hfind order visitor.recorded (state, [])
    rw [hwalk]
    exact ⟨rfl, rfl⟩

/-- The ids of the ideas below the root of the tangle are each visited once, whatever way leads
there. -/
theorem tangle_walk_covers : ∃ came below,
    ((storeAfter .memory .nobody tangled).visit 1 .breadthFirst Visitor.ids.quiet ()).1.result =
      .ok came ∧
    (ClosureStrategy.native.descendants (storeAfter .memory .nobody tangled) 1 true).result =
      .ok below ∧
    ((((storeAfter .memory .nobody tangled).visit 1 .breadthFirst Visitor.ids.quiet.recorded
      ((), [])).2.2.filterMap Callback.visitedIdea?).map (·.id)).Perm below := by
  have hlive : (storeAfter .memory .nobody tangled).isLiveIdea 1 := by decide +kernel
  have huncut : Visitor.ids.quiet.CutsBy fun _ => False :=
    ⟨fun idea level above s => ⟨.proceed idea.id, s, rfl, by simp [Outcome.value?]⟩,
      fun idea level own below s => ⟨own, s, rfl⟩⟩
  obtain ⟨hsame, hwalk, -⟩ :=
    storeAfter_visit_covers .memory .nobody tangled Visitor.ids.quiet huncut .breadthFirst 1 ()
  obtain ⟨came, below, hcame, hbelow, -, hvisited, -⟩ := hwalk hlive
  refine ⟨came, below, ?_, hbelow .native, hvisited⟩
  rw [← hsame]
  exact hcame

end Session

end Deliberation
