import Deliberation.Proofs.Graph.Snapshot
import Deliberation.Proofs.Place
import Deliberation.Proofs.Session.Legible

/-!
The graph in memory against the queries, for every database that only requests have changed. Links
are always stored with finite orders and without negative zeros, so that the order in which the
children stand is the order of the numbers of their links.
-/

namespace Deliberation

open Store

/-- The orders of all links, removed or not, can be stored as they are. -/
def Store.IsOrderly (store : Store) : Prop := store.links.Every fun row => row.order.IsStorable

namespace Store

variable {now : Timestamp} {store : Store}

theorem IsOrderly.pushLink (h : store.IsOrderly) {new : NewLink}
    (hfinite : new.order.nonFinite? = none) : (store.pushLink (.ofNew now new)).IsOrderly :=
  h.push (show (LinkRow.ofNew now new).order.IsStorable from Place.isStorable_stored hfinite)

theorem IsOrderly.removeLinks (h : store.IsOrderly) (links : List Id) :
    (store.removeLinks now links).IsOrderly :=
  h.updateAll (fun row hrow => show (row.removed now).order.IsStorable from hrow) links

theorem IsOrderly.removeLink (h : store.IsOrderly) (link : Id) :
    (store.removeLink now link).IsOrderly :=
  h.removeLinks [link]

theorem IsOrderly.removeLinksOf (h : store.IsOrderly) (idea : Id) :
    (store.removeLinksOf now idea).IsOrderly := by
  refine h.mapRows fun row hrow => ?_
  split
  · exact hrow
  · exact hrow

end Store

theorem Request.Effect.isOrderly {now : Timestamp} {request : Request} {store after : Store}
    {receipt : Receipt request.Reply} (heffect : request.Effect now store receipt after)
    (h : store.IsOrderly) : after.IsOrderly := by
  cases heffect with
  | tombstoneIdea => exact h.removeLinksOf _
  | moveIdea horder => exact (h.removeLinks _).pushLink horder
  | createLink horder => exact h.pushLink horder
  | tombstoneLink => exact h.removeLink _
  | reorderLink horder => exact (h.removeLink _).pushLink horder
  | _ => exact h

namespace Store

variable {store : Store}

/-- The links to the children stand in the order of their numbers, and where these are the same, by
id. -/
theorem IsOrderly.pairwise_childLinks (h : store.IsOrderly) (idea : Id) :
    (store.childLinks idea).Pairwise fun a b => a.2.order.units < b.2.order.units ∨
      a.2.order.units = b.2.order.units ∧ a.1 ≤ b.1 := by
  have hsorted : (store.childLinks idea).Pairwise fun a b => isChildOrder a b = true := by
    refine List.pairwise_mergeSort ?_ ?_ _
    · exact fun _ _ _ => Place.isBefore_trans
    · exact fun _ _ => Place.isBefore_total _ _ _ _
  have hstorable : ∀ entry ∈ store.childLinks idea, entry.2.order.IsStorable := fun entry hentry =>
    h _ _ (mem_liveLinks_iff.mp (List.mem_filter.mp (List.mem_mergeSort.mp hentry)).1).1
  refine hsorted.imp_of_mem fun {a b} ha hb hbefore => ?_
  have hless := Place.rank_lt_rank_iff (b := b.2.order) (hstorable a ha)
  have hgreater := Place.rank_lt_rank_iff (b := a.2.order) (hstorable b hb)
  rw [isChildOrder, Place.isBefore_iff] at hbefore
  unfold Id at *
  omega

end Store

namespace Session

theorem storeAfter_isOrderly (medium : Medium) (watcher : Watcher) (history : History) :
    (storeAfter medium watcher history).IsOrderly :=
  storeAfter_of_kept Table.every_empty Request.Effect.isOrderly medium watcher history

/-- Whatever was asked of a new database before: the graph of a discussion and the queries say the
same about a live idea of the discussion. They tell its children and its parents in the same order
and one for each link, children by the numbers of their links and then by link, parents by link. The
neighbours are the sets of these, and the first link from a parent is the one behind the first
parent. -/
theorem storeAfter_graph_agrees (medium : Medium) (watcher : Watcher) (history : History)
    {discussion idea : Id}
    (hlive : (storeAfter medium watcher history).isLiveIdeaOf discussion idea) :
    let store := storeAfter medium watcher history
    ∃ ideas links graph node children parents,
      store.discussionIdeas discussion = .ok ideas ∧ store.discussionLinks discussion = .ok links ∧
      store.graph discussion = .ok graph ∧ graph.node? idea = some node ∧
      store.children idea = .ok children ∧ store.parents idea = .ok parents ∧
      (graph.children node).map graph.idOf = children.map (·.id) ∧
      (graph.parents node).map graph.idOf = parents.map (·.id) ∧
      store.childCount idea = children.length ∧
      store.neighbors [idea] .forward = ascending (children.map (·.id)) ∧
      store.neighbors [idea] .backward = ascending (parents.map (·.id)) ∧
      store.firstParentLink idea = .ok (links.filter fun link => link.target = idea).head? ∧
      (links.filter fun link => link.target = idea).map (·.source) = parents.map (·.id) ∧
      (store.firstParentLink idea = .ok none ↔ parents = []) ∧
      graph.ideaCount = ideas.length ∧ graph.linkCount = links.length ∧
      (store.childLinks idea).map (·.2.target) = children.map (·.id) ∧
      (store.childLinks idea).Pairwise fun a b => a.2.order.units < b.2.order.units ∨
        a.2.order.units = b.2.order.units ∧ a.1 ≤ b.1 := by
  intro store
  have hconsistent : store.Consistent := storeAfter_consistent medium watcher history
  have hlegible : store.Legible := storeAfter_legible medium watcher history
  have hversions : store.TellsLiveVersions := storeAfter_tellsLiveVersions medium watcher history
  obtain ⟨ideas, links, graph, hloads⟩ := hconsistent.exists_loads hlegible hversions discussion
  obtain ⟨node, hnode⟩ := hloads.isGraph.exists_node?_iff.mpr hlive
  have hid : graph.idOf node = idea := hloads.isGraph.hasDistinctIds.node?_eq_some_iff.mp hnode
  obtain ⟨children, hchildren⟩ := hlegible.exists_children hversions idea
  obtain ⟨parents, hparents⟩ := hlegible.exists_parents hversions idea
  have hchildIds := map_id_of_children hchildren
  have hparentIds := map_id_of_parents hparents
  have hinbound := hloads.isGraph.parentLinks_eq hconsistent node
  have hreads : readAll LinkRow.read ((store.liveLinksOf discussion).filter fun entry =>
      entry.2.target == idea) = .ok (links.filter fun link => link.target = idea) := by
    refine readAll_filter (fun id row link hread => ?_) hloads.readsLinks
    rw [(LinkRow.read_eq_ok_iff.mp hread).2.2.2.2.1]
    rfl
  rw [hid] at hinbound
  have hfirst : store.firstParentLink idea =
      .ok (links.filter fun link => link.target = idea).head? := by
    rw [firstParentLink, hinbound]
    exact answer_head?_of_readAll hreads
  have hsources : (links.filter fun link => link.target = idea).map (·.source) =
      parents.map (·.id) := by
    rw [hparentIds, hinbound]
    exact map_of_readAll (fun _ _ _ hread => (LinkRow.read_eq_ok_iff.mp hread).2.2.2.1) hreads
  refine ⟨ideas, links, graph, node, children, parents, hloads.readsIdeas, hloads.readsLinks,
    hloads.puts, hnode, hchildren, hparents, ?_, ?_, ?_, ?_, ?_, hfirst, hsources, ?_, ?_, ?_,
    hchildIds.symm, (storeAfter_isOrderly medium watcher history).pairwise_childLinks idea⟩
  · rw [hloads.isGraph.map_idOf_children, hid, hchildIds]
  · rw [hloads.isGraph.map_idOf_parents hconsistent, hid, hparentIds]
  · rw [childCount, ← List.length_map (·.2.target), ← hchildIds, List.length_map]
  · rw [hchildIds]
    exact neighbors_singleton fun far => mem_map_childLinks_iff
  · rw [hparentIds]
    exact neighbors_singleton fun far => mem_map_parentLinks_iff
  · rw [hfirst, Except.ok.injEq, List.head?_eq_none_iff, ← List.map_eq_nil_iff, hsources,
      List.map_eq_nil_iff]
  · rw [Graph.ideaCount, hloads.nodes]
  · rw [Graph.linkCount, ← List.length_map graph.arcOf, ← Graph.arcs, hloads.arcs, List.length_map]

/-- Two ideas below the root of a discussion, one of them twice, and a way back up. -/
def tangled : History := [
  (⟨0, 0⟩, .createDiscussion { slug := "energy", topic := "Energy" }),
  (⟨1, 0⟩, .createIdea { discussion := 1 }),
  (⟨2, 0⟩, .createIdea { discussion := 1 }),
  (⟨3, 0⟩, .createLink { source := 1, target := 2 }),
  (⟨4, 0⟩, .createLink { source := 1, target := 3, order := .negativeZero }),
  (⟨5, 0⟩, .createLink { source := 1, target := 2 }),
  (⟨6, 0⟩, .createLink { source := 3, target := 1 })]

theorem tangle_graph_agrees : ∃ graph node,
    (storeAfter .memory .nobody tangled).graph 1 = .ok graph ∧ graph.node? 1 = some node ∧
    ((graph.children node).map graph.idOf).length = 3 ∧
      (graph.parents node).map graph.idOf = [3] := by
  have hlive : (storeAfter .memory .nobody tangled).isLiveIdeaOf 1 1 := by decide +kernel
  obtain ⟨ideas, links, graph, node, children, parents, -, -, hgraph, hnode, -, hparents,
    hsameChildren, hsameParents, hcount, -⟩ := storeAfter_graph_agrees .memory .nobody tangled hlive
  have hthree : (storeAfter .memory .nobody tangled).childCount 1 = 3 := by
    rw [childCount, childLinks, List.length_mergeSort]
    decide +kernel
  have hparentIds : parents.map (·.id) = [3] := by
    rw [Store.map_id_of_parents hparents]
    decide +kernel
  refine ⟨graph, node, hgraph, hnode, ?_, hsameParents.trans hparentIds⟩
  rw [hsameChildren, List.length_map, ← hcount, hthree]

end Session

end Deliberation
