import Deliberation.Graph.Visit
import Deliberation.Proofs.Closure.Linked
import Deliberation.Proofs.Graph.Parts
import Deliberation.Proofs.Store.Readable

/-!
The graph of a stored discussion. It is loaded by two queries and then looked at without the store;
here it is shown to say the same about live ideas as the queries that look at the store for each
idea.
-/

namespace Deliberation

open Deliberation.Graph (Arc)

namespace Store

variable {store : Store} {discussion : Id} {graph : Graph}

/-- The rows of the live ideas of a discussion, by id. -/
def liveIdeasOf (store : Store) (discussion : Id) : List (Id × IdeaRow) :=
  store.ideas.entries.filter fun entry => entry.2.discussion == discussion && entry.2.isLive

/-- The rows of the live links between live ideas that start in a discussion, by id. -/
def liveLinksOf (store : Store) (discussion : Id) : List (Id × LinkRow) :=
  store.liveLinks.filter fun entry =>
    store.isLiveIdeaOf discussion entry.2.source && store.isLiveIdea entry.2.target

def arcOf (entry : Id × LinkRow) : Arc := ⟨entry.1, entry.2.order, entry.2.source, entry.2.target⟩

structure IsGraphOf (store : Store) (discussion : Id) (graph : Graph) : Prop where
  ids : graph.ideas.map (·.id) = (store.liveIdeasOf discussion).map (·.1)
  stored : ∀ idea ∈ graph.ideas, store.findIdea idea.id = .ok (some idea)
  arcs : graph.arcs = (store.liveLinksOf discussion).map arcOf

theorem mem_liveIdeasOf_iff {id : Id} :
    id ∈ (store.liveIdeasOf discussion).map (·.1) ↔ store.isLiveIdeaOf discussion id := by
  rw [isLiveIdeaOf_iff]
  simp only [liveIdeasOf, List.mem_map, List.mem_filter, Bool.and_eq_true, beq_iff_eq]
  constructor
  · rintro ⟨⟨_, row⟩, ⟨hentry, hhome, hlive⟩, rfl⟩
    exact ⟨row, Table.mem_entries_iff.mp hentry, hlive, hhome⟩
  · rintro ⟨row, hrow, hlive, hhome⟩
    exact ⟨(id, row), ⟨Table.mem_entries_iff.mpr hrow, hhome, hlive⟩, rfl⟩

theorem nodup_of_sublist_entries {ρ : Type} {table : Table ρ} {entries : List (Id × ρ)}
    (h : entries.Sublist table.entries) : (entries.map (·.1)).Pairwise (· < ·) :=
  (Table.pairwise_entries table).sublist (h.map (·.1))

theorem liveLinksOf_sublist (store : Store) (discussion : Id) :
    (store.liveLinksOf discussion).Sublist store.links.entries :=
  List.filter_sublist.trans List.filter_sublist

theorem Consistent.isLiveIdeaOf_ends (h : store.Consistent) {link : Id} {row : LinkRow}
    (hrow : store.links.get? link = some row) (hlive : row.isLive) :
    store.isLiveIdeaOf discussion row.source ↔ store.isLiveIdeaOf discussion row.target := by
  obtain ⟨parent, child, hparent, hchild, hparentLive, hchildLive, hsame⟩ :=
    h.links link row hrow hlive
  rw [isLiveIdeaOf_iff, isLiveIdeaOf_iff]
  simp [hparent, hchild, hparentLive, hchildLive, hsame]

theorem isLiveIdea_of_isLiveIdeaOf {id : Id} (h : store.isLiveIdeaOf discussion id) :
    store.isLiveIdea id := by
  obtain ⟨row, hrow, hlive, -⟩ := isLiveIdeaOf_iff.mp h
  exact isLiveIdea_iff.mpr ⟨row, hrow, hlive⟩

/-! ## Loading -/

structure Loads (store : Store) (discussion : Id) (ideas : List Idea) (links : List Link)
    (graph : Graph) : Prop where
  readsIdeas : store.discussionIdeas discussion = .ok ideas
  readsLinks : store.discussionLinks discussion = .ok links
  puts : store.graph discussion = .ok graph
  nodes : graph.ideas = ideas
  arcs : graph.arcs = links.map .ofLink
  isGraph : store.IsGraphOf discussion graph

theorem Consistent.exists_loads (h : store.Consistent) (hlegible : store.Legible)
    (hversions : store.TellsLiveVersions) (discussion : Id) :
    ∃ ideas links graph, store.Loads discussion ideas links graph := by
  obtain ⟨ideas, hideas⟩ := (hlegible.readable hversions).discussionIdeas discussion
  obtain ⟨links, hlinks⟩ := (hlegible.readable hversions).discussionLinks discussion
  have hids : ideas.map (·.id) = (store.liveIdeasOf discussion).map (·.1) :=
    map_of_readAll (fun _ _ _ hread => (IdeaRow.read_eq_ok_iff.mp hread).2.2.2.2.2.1) hideas
  have hideasLive : ∀ idea ∈ ideas, idea.isLive := by
    intro idea hidea
    obtain ⟨⟨id, row⟩, hentry, hread⟩ := mem_of_readAll hideas hidea
    have hlive : row.isLive := (Bool.and_eq_true_iff.mp (List.mem_filter.mp hentry).2).2
    have hdead := IdeaRow.isTombstone_of_read hread
    simpa [Idea.isLive, Idea.isTombstone, hlive] using hdead
  have hstored : ∀ idea ∈ ideas, store.findIdea idea.id = .ok (some idea) := by
    intro idea hidea
    obtain ⟨⟨id, row⟩, hentry, hread⟩ := mem_of_readAll hideas hidea
    obtain rfl : idea.id = id := (IdeaRow.read_eq_ok_iff.mp hread).2.2.2.2.2.1
    exact find_eq_ok_some_iff.mpr
      ⟨row, Table.mem_entries_iff.mp (List.mem_filter.mp hentry).1, hread⟩
  have hlinksLive : ∀ link ∈ links, link.isTombstone = false ∧
      link.source ∈ ideas.map (·.id) ∧ link.target ∈ ideas.map (·.id) := by
    intro link hlink
    obtain ⟨⟨id, row⟩, hentry, hread⟩ := mem_of_readAll hlinks hlink
    obtain ⟨hmem, hends⟩ := List.mem_filter.mp hentry
    obtain ⟨hrow, hlive⟩ := mem_liveLinks_iff.mp hmem
    obtain ⟨-, -, -, hsource, htarget, -, -⟩ := LinkRow.read_eq_ok_iff.mp hread
    have hhome : store.isLiveIdeaOf discussion row.source := (Bool.and_eq_true_iff.mp hends).1
    rw [hids, mem_liveIdeasOf_iff, mem_liveIdeasOf_iff, hsource, htarget,
      ← h.isLiveIdeaOf_ends hrow hlive]
    exact ⟨by simp [LinkRow.isTombstone_of_read hread, hlive], hhome, hhome⟩
  have hkept : Graph.keptLinks ideas links = links :=
    Graph.keptLinks_eq_self hideasLive (fun link hlink => (hlinksLive link hlink).1)
      fun link hlink => (hlinksLive link hlink).2
  have harcs : (Graph.ofParts ideas links).arcs = links.map .ofLink := by
    rw [Graph.ofParts_arcs, hkept]
  have hnodes : (Graph.ofParts ideas links).ideas = ideas := Graph.ofParts_ideas hideasLive
  refine ⟨ideas, links, .ofParts ideas links, hideas, hlinks, ?_, hnodes, harcs, ?_, ?_, ?_⟩
  · rw [Store.graph, hideas, hlinks]
    rfl
  · rw [hnodes, hids]
  · rw [hnodes]
    exact hstored
  · rw [harcs]
    refine map_of_readAll (fun id row link hread => ?_) hlinks
    obtain ⟨-, -, hid, hsource, htarget, horder, -⟩ := LinkRow.read_eq_ok_iff.mp hread
    rw [Arc.ofLink, hid, hsource, htarget, horder, arcOf]

/-! ## Neighbours -/

theorem map_fst_ideaEntries {ids : List Id} (h : ∀ id ∈ ids, store.isLiveIdea id) :
    (store.ideaEntries ids).map (·.1) = ids := by
  have hsame : (fun id => ((store.ideas.get? id).map fun row => (id, row)).map (·.1)) = fun id =>
      (store.ideas.get? id).map fun _ => id := by
    funext id
    rw [Option.map_map]
    rfl
  rw [ideaEntries, List.map_filterMap, hsame]
  refine (List.filterMap_eq_map_iff_forall_eq_some.mpr fun id hid => ?_).trans (List.map_id ids)
  obtain ⟨row, hrow, -⟩ := isLiveIdea_iff.mp (h id hid)
  rw [hrow]
  rfl

theorem map_id_of_children {idea : Id} {ideas : List Idea} (h : store.children idea = .ok ideas) :
    ideas.map (·.id) = (store.childLinks idea).map (·.2.target) := by
  have hlive : ∀ id ∈ (store.childLinks idea).map (·.2.target), store.isLiveIdea id := by
    intro id hid
    obtain ⟨entry, hentry, rfl⟩ := List.mem_map.mp hid
    exact (Bool.and_eq_true_iff.mp (List.mem_filter.mp (List.mem_mergeSort.mp hentry)).2).2
  rw [← map_fst_ideaEntries hlive]
  exact map_of_readAll (fun _ _ _ hread => (IdeaRow.read_eq_ok_iff.mp hread).2.2.2.2.2.1) h

theorem map_id_of_parents {idea : Id} {ideas : List Idea} (h : store.parents idea = .ok ideas) :
    ideas.map (·.id) = (store.parentLinks idea).map (·.2.source) := by
  have hlive : ∀ id ∈ (store.parentLinks idea).map (·.2.source), store.isLiveIdea id := by
    intro id hid
    obtain ⟨entry, hentry, rfl⟩ := List.mem_map.mp hid
    exact (Bool.and_eq_true_iff.mp (List.mem_filter.mp hentry).2).2
  rw [← map_fst_ideaEntries hlive]
  exact map_of_readAll (fun _ _ _ hread => (IdeaRow.read_eq_ok_iff.mp hread).2.2.2.2.2.1) h

/-- The children of an idea are what a live link leads to from it. -/
theorem mem_map_childLinks_iff {idea far : Id} :
    far ∈ (store.childLinks idea).map (·.2.target) ↔ store.LeadsTo .forward idea far := by
  simp only [childLinks, List.mem_map, List.mem_mergeSort, List.mem_filter, Bool.and_eq_true,
    beq_iff_eq]
  constructor
  · rintro ⟨⟨link, row⟩, ⟨hentry, hsource, hfar⟩, rfl⟩
    obtain ⟨hrow, hlive⟩ := mem_liveLinks_iff.mp hentry
    exact ⟨⟨link, row, hrow, hlive, hsource, rfl⟩, isLiveIdea_iff.mp hfar⟩
  · rintro ⟨⟨link, row, hrow, hlive, hsource, rfl⟩, hfar⟩
    exact ⟨(link, row), ⟨mem_liveLinks_iff.mpr ⟨hrow, hlive⟩, hsource, isLiveIdea_iff.mpr hfar⟩,
      rfl⟩

theorem mem_map_parentLinks_iff {idea far : Id} :
    far ∈ (store.parentLinks idea).map (·.2.source) ↔ store.LeadsTo .backward idea far := by
  simp only [parentLinks, List.mem_map, List.mem_filter, Bool.and_eq_true, beq_iff_eq]
  constructor
  · rintro ⟨⟨link, row⟩, ⟨hentry, htarget, hfar⟩, rfl⟩
    obtain ⟨hrow, hlive⟩ := mem_liveLinks_iff.mp hentry
    exact ⟨⟨link, row, hrow, hlive, htarget, rfl⟩, isLiveIdea_iff.mp hfar⟩
  · rintro ⟨⟨link, row, hrow, hlive, htarget, rfl⟩, hfar⟩
    exact ⟨(link, row), ⟨mem_liveLinks_iff.mpr ⟨hrow, hlive⟩, htarget, isLiveIdea_iff.mpr hfar⟩,
      rfl⟩

/-- The neighbours of one idea are its children or its parents, each once and in order. -/
theorem neighbors_singleton {idea : Id} {direction : Direction} {ids : List Id}
    (h : ∀ far, far ∈ ids ↔ store.LeadsTo direction idea far) :
    store.neighbors [idea] direction = ascending ids := by
  refine ascending_congr fun far => ?_
  rw [h far, ← mem_edges_iff]
  simp

namespace IsGraphOf

theorem hasDistinctIds (h : store.IsGraphOf discussion graph) : graph.HasDistinctIds := by
  rw [Graph.HasDistinctIds, h.ids]
  exact (nodup_of_sublist_entries List.filter_sublist).imp Int.ne_of_lt

theorem map_link_arcs (h : store.IsGraphOf discussion graph) :
    graph.arcs.map Arc.link = (store.liveLinksOf discussion).map (·.1) := by
  rw [h.arcs, List.map_map]
  rfl

theorem nodup_links (h : store.IsGraphOf discussion graph) : (graph.arcs.map Arc.link).Nodup := by
  rw [h.map_link_arcs]
  exact (nodup_of_sublist_entries (store.liveLinksOf_sublist discussion)).imp Int.ne_of_lt

theorem exists_node?_iff (h : store.IsGraphOf discussion graph) {id : Id} :
    (∃ node, graph.node? id = some node) ↔ store.isLiveIdeaOf discussion id := by
  rw [Graph.exists_node?_iff, h.ids, mem_liveIdeasOf_iff]

theorem isLiveIdeaOf_idOf (h : store.IsGraphOf discussion graph) (node : graph.Node) :
    store.isLiveIdeaOf discussion (graph.idOf node) :=
  h.exists_node?_iff.mp ⟨node, h.hasDistinctIds.node?_eq_some_iff.mpr rfl⟩

/-- The children of a node are those that the store tells, in the same order. -/
theorem map_idOf_children (h : store.IsGraphOf discussion graph) (node : graph.Node) :
    (graph.children node).map graph.idOf =
      (store.childLinks (graph.idOf node)).map (·.2.target) := by
  have hkept : ((store.liveLinksOf discussion).filter fun entry =>
      entry.2.source == graph.idOf node) = store.liveLinks.filter fun entry =>
        entry.2.source == graph.idOf node && store.isLiveIdea entry.2.target := by
    rw [liveLinksOf, List.filter_filter]
    refine List.filter_congr fun entry _ => ?_
    by_cases hsource : entry.2.source = graph.idOf node
    · simp [hsource, h.isLiveIdeaOf_idOf node]
    · rw [beq_false_of_ne hsource, Bool.false_and, Bool.false_and]
  have harcs : (graph.arcs.filter fun arc => arc.source == graph.idOf node) =
      ((store.liveLinksOf discussion).filter fun entry =>
        entry.2.source == graph.idOf node).map arcOf := by
    rw [h.arcs, List.filter_map]
    rfl
  have hsort := List.map_mergeSort (r := isChildOrder) (s := Arc.isChildOrder) (f := arcOf)
    (l := store.liveLinks.filter fun entry =>
      entry.2.source == graph.idOf node && store.isLiveIdea entry.2.target) fun _ _ _ _ => rfl
  rw [Graph.map_idOf_children h.hasDistinctIds h.nodup_links, harcs, hkept, ← hsort, List.map_map]
  rfl

/-- The links from the parents of a node are those of the links of the discussion that lead to
it. -/
theorem parentLinks_eq (h : store.IsGraphOf discussion graph) (hconsistent : store.Consistent)
    (node : graph.Node) : store.parentLinks (graph.idOf node) =
      (store.liveLinksOf discussion).filter fun entry => entry.2.target == graph.idOf node := by
  rw [liveLinksOf, List.filter_filter, parentLinks]
  refine List.filter_congr fun entry hentry => ?_
  by_cases htarget : entry.2.target = graph.idOf node
  · obtain ⟨hrow, hlive⟩ := mem_liveLinks_iff.mp hentry
    have hhere := h.isLiveIdeaOf_idOf node
    have hsource : store.isLiveIdeaOf discussion entry.2.source := by
      rw [hconsistent.isLiveIdeaOf_ends hrow hlive, htarget]
      exact hhere
    simp [htarget, hsource, isLiveIdea_of_isLiveIdeaOf hsource, isLiveIdea_of_isLiveIdeaOf hhere]
  · rw [beq_false_of_ne htarget, Bool.false_and, Bool.false_and]

/-- The parents of a node are those that the store tells, in the same order. -/
theorem map_idOf_parents (h : store.IsGraphOf discussion graph) (hconsistent : store.Consistent)
    (node : graph.Node) : (graph.parents node).map graph.idOf =
      (store.parentLinks (graph.idOf node)).map (·.2.source) := by
  have hordered : ((store.parentLinks (graph.idOf node)).map arcOf).Pairwise
      fun a b => Arc.isParentOrder a b = true := by
    have hlinks := nodup_of_sublist_entries
      (List.filter_sublist.trans List.filter_sublist :
        (store.parentLinks (graph.idOf node)).Sublist _)
    rw [List.pairwise_map] at hlinks ⊢
    exact hlinks.imp fun hless => decide_eq_true (Int.le_of_lt hless)
  have harcs : (graph.arcs.filter fun arc => arc.target == graph.idOf node) =
      (store.parentLinks (graph.idOf node)).map arcOf := by
    rw [h.arcs, List.filter_map, h.parentLinks_eq hconsistent]
    rfl
  rw [Graph.map_idOf_parents h.hasDistinctIds h.nodup_links, harcs,
    List.mergeSort_of_pairwise hordered, List.map_map]
  rfl

/-- The children in the graph are those that a live link leads to in the store. -/
theorem mem_children_iff (h : store.IsGraphOf discussion graph) {node child : graph.Node} :
    child ∈ graph.children node ↔ store.Linked (graph.idOf node) (graph.idOf child) := by
  rw [Graph.mem_children_iff h.hasDistinctIds, h.arcs]
  constructor
  · rintro ⟨arc, harc, hsource, htarget⟩
    obtain ⟨entry, hentry, rfl⟩ := List.mem_map.mp harc
    obtain ⟨hrow, hlive⟩ := mem_liveLinks_iff.mp (List.mem_filter.mp hentry).1
    exact ⟨entry.1, entry.2, hrow, hlive, hsource, htarget⟩
  · rintro ⟨link, row, hrow, hlive, hsource, htarget⟩
    refine ⟨_, List.mem_map_of_mem (List.mem_filter.mpr
      ⟨mem_liveLinks_iff.mpr ⟨hrow, hlive⟩, ?_⟩), hsource, htarget⟩
    have hstart := h.isLiveIdeaOf_idOf node
    have hend := isLiveIdea_of_isLiveIdeaOf (h.isLiveIdeaOf_idOf child)
    simp [hsource, htarget, hstart, hend]

end IsGraphOf

end Store

end Deliberation
