import Deliberation.Proofs.Graph.Parts
import Mathlib.Data.List.Count

/-!
Neighbours in a graph that is put together from any ideas and links. An id may be used twice, links
may be removed, lead nowhere or share an id, and an order is whatever its bits say. Each link that
is kept makes its two ends neighbours once, seen from either of them, and the neighbours of a node
stand in the order of these links.
-/

namespace Deliberation

/-- Whether one link to a child may stand before another one: by the total order of their places,
and links with the same place by id. -/
def Link.StandsBefore (a b : Link) : Prop :=
  a.order.Precedes b.order ∨ a.order = b.order ∧ a.id ≤ b.id

namespace Graph

variable {graph : Graph}

/-! ## Edges between the nodes that ids stand for -/

/-- Each edge joins the nodes that the ids of its ends stand for. -/
def IsAttached (graph : Graph) : Prop :=
  ∀ edge ∈ graph.edges, graph.node? (graph.idOf edge.source) = some edge.source ∧
    graph.node? (graph.idOf edge.target) = some edge.target

/-- Where an id is used twice, the node that came first has no edges. -/
theorem ofParts_isAttached (ideas : List Idea) (links : List Link) :
    (ofParts ideas links).IsAttached := by
  intro edge hedge
  obtain ⟨link, -, hlink⟩ := List.mem_filterMap.mp hedge
  obtain ⟨hsource, htarget, -⟩ := edgeOf?_eq_some_iff.mp hlink
  have hsourceId : (ofParts ideas links).idOf edge.source = link.source := id_of_place? hsource
  have htargetId : (ofParts ideas links).idOf edge.target = link.target := id_of_place? htarget
  rw [hsourceId, htargetId]
  exact ⟨hsource, htarget⟩

/-- What an edge is, told by the nodes that the ids of its arc stand for. -/
theorem IsAttached.map_edges (h : graph.IsAttached) :
    (graph.edges.map fun edge => (edge.link, edge.order, some edge.source, some edge.target)) =
      graph.arcs.map fun arc => (arc.link, arc.order, graph.node? arc.source,
        graph.node? arc.target) := by
  rw [arcs, List.map_map]
  apply List.map_congr_left
  intro edge hedge
  simp only [Function.comp_apply, arcOf, h edge hedge]

/-! ## Nodes that are listed along links -/

/-- The nodes are the far ends of the links, one for each link, in an order in which the links may
stand. -/
def ListsAlong (graph : Graph) (far : Link → Id) (before : Link → Link → Prop) (links : List Link)
    (nodes : List graph.Node) : Prop :=
  ∃ sorted : List Link, sorted.Perm links ∧ sorted.Pairwise before ∧
    nodes.map some = sorted.map fun link => graph.node? (far link)

theorem ListsAlong.imp {far : Link → Id} {before other : Link → Link → Prop} {links : List Link}
    {nodes : List graph.Node} (h : graph.ListsAlong far before links nodes)
    (himp : ∀ {a b}, before a b → other a b) : graph.ListsAlong far other links nodes := by
  obtain ⟨sorted, hperm, hsorted, hnodes⟩ := h
  exact ⟨sorted, hperm, hsorted.imp himp, hnodes⟩

/-- A node is listed once for each link that has it at its far end. -/
theorem ListsAlong.count {far : Link → Id} {before : Link → Link → Prop} {links : List Link}
    {nodes : List graph.Node} (h : graph.ListsAlong far before links nodes) {id : Id}
    {node : graph.Node} (hnode : graph.node? id = some node) :
    nodes.count node = links.countP fun link => far link = id := by
  obtain ⟨sorted, hperm, -, hnodes⟩ := h
  calc nodes.count node
      = (nodes.map some).count (some node) :=
        (List.count_map_of_injective nodes some (fun _ _ => Option.some.inj) node).symm
    _ = sorted.countP fun link => graph.node? (far link) == some node := by
        rw [hnodes, List.count_eq_countP, List.countP_map]
        rfl
    _ = sorted.countP fun link => far link = id := by
        apply List.countP_congr
        intro link _
        simp only [beq_iff_eq, decide_eq_true_eq, node?_eq_iff hnode]
    _ = links.countP fun link => far link = id := hperm.countP_eq _

/-- The edges that have a node at their near end, sorted as their arcs are, list the nodes at their
far ends along the links that the arcs come from. -/
theorem listsAlong_of_edges {links : List Link} (harcs : graph.arcs = links.map .ofLink)
    {le : Arc → Arc → Bool} (htrans : ∀ a b c, le a b = true → le b c = true → le a c = true)
    (htotal : ∀ a b, (le a b || le b a) = true) (near far : Edge graph.ideas.length → graph.Node)
    (nearId farId : Arc → Id)
    (hnear : ∀ edge ∈ graph.edges, graph.node? (nearId (graph.arcOf edge)) = some (near edge))
    (hfar : ∀ edge ∈ graph.edges, graph.node? (farId (graph.arcOf edge)) = some (far edge))
    (node : graph.Node) :
    graph.ListsAlong (fun link => farId (.ofLink link)) (fun a b => le (.ofLink a) (.ofLink b))
      (links.filter fun link => graph.node? (nearId (.ofLink link)) = some node)
      (((graph.edges.reverse.filter fun edge => near edge == node).mergeSort
        fun a b => le (graph.arcOf a) (graph.arcOf b)).map far) := by
  have hkept : (graph.edges.reverse.filter fun edge => near edge == node) =
      graph.edges.reverse.filter fun edge => graph.node? (nearId (graph.arcOf edge)) =
        some node := by
    apply List.filter_congr
    intro edge hedge
    rw [Bool.eq_iff_iff]
    simp [hnear edge (List.mem_reverse.mp hedge)]
  refine ⟨(links.reverse.filter fun link =>
    graph.node? (nearId (.ofLink link)) = some node).mergeSort
      fun a b => le (.ofLink a) (.ofLink b), ?_, ?_, ?_⟩
  · exact (List.mergeSort_perm _ _).trans ((List.reverse_perm links).filter _)
  · refine List.pairwise_mergeSort ?_ ?_ _
    · exact fun _ _ _ => htrans _ _ _
    · exact fun _ _ => htotal _ _
  · have hedges := graph.map_sort_edges le fun arc => graph.node? (nearId arc) = some node
    have hlinks := map_sort_filter Arc.ofLink le (fun arc => graph.node? (nearId arc) = some node)
      links.reverse
    rw [List.map_reverse, ← harcs, ← hedges] at hlinks
    have hlooked := congrArg (List.map fun arc => graph.node? (farId arc)) hlinks
    rw [List.map_map, List.map_map] at hlooked
    rw [hkept, List.map_map]
    refine Eq.trans ?_ hlooked.symm
    apply List.map_congr_left
    intro edge hedge
    simp only [List.mem_mergeSort, List.mem_filter, List.mem_reverse] at hedge
    exact (hfar edge hedge.1).symm

/-- The children of a node are the ends of its links, sorted by their places. -/
theorem IsAttached.children_listsAlong (h : graph.IsAttached) {links : List Link}
    (harcs : graph.arcs = links.map .ofLink) (node : graph.Node) :
    graph.ListsAlong (·.target) Link.StandsBefore
      (links.filter fun link => graph.node? link.source = some node) (graph.children node) := by
  have hlisted := listsAlong_of_edges harcs Arc.isChildOrder_trans Arc.isChildOrder_total (·.source)
    (·.target)
    (·.source) (·.target) (fun edge hedge => (h edge hedge).1)
    (fun edge hedge => (h edge hedge).2) node
  apply hlisted.imp
  intro a b hbefore
  rw [Arc.isChildOrder, Place.isBefore_iff, Place.rank_lt_rank_iff_precedes,
    Place.rank_inj] at hbefore
  exact hbefore

/-- The parents of a node are the starts of the links to it, sorted by link. -/
theorem IsAttached.parents_listsAlong (h : graph.IsAttached) {links : List Link}
    (harcs : graph.arcs = links.map .ofLink) (node : graph.Node) :
    graph.ListsAlong (·.source) (fun a b => a.id ≤ b.id)
      (links.filter fun link => graph.node? link.target = some node) (graph.parents node) := by
  have hlisted := listsAlong_of_edges harcs Arc.isParentOrder_trans Arc.isParentOrder_total
    (·.target) (·.source)
    (·.target) (·.source) (fun edge hedge => (h edge hedge).2)
    (fun edge hedge => (h edge hedge).1) node
  apply hlisted.imp
  exact of_decide_eq_true

/-- Whatever ideas and links a graph is put together from, its nodes are the live ideas and its
edges the links between these that have not been removed, each between the last nodes with the ids
of its ends. One node is among the children of another one as often as that is among its parents,
and as often as links lead from one to the other. The children of a node stand by the total order of
the orders of their links and then by link, its parents by link. -/
theorem ofParts_neighbors (ideas : List Idea) (links : List Link) :
    let graph := ofParts ideas links
    let kept := keptLinks ideas links
    (graph.nodes.map graph.idea = ideas.filter Idea.isLive ∧
      graph.ideaCount = ideas.countP Idea.isLive) ∧
    (∀ id, ((∃ node, graph.node? id = some node) ↔ NamesLive ideas id) ∧
      ∀ node, graph.node? id = some node ↔
        graph.idOf node = id ∧ ∀ later, node < later → graph.idOf later ≠ id) ∧
    ((graph.edges.map fun edge => (edge.link, edge.order, some edge.source, some edge.target)) =
        kept.map (fun link => (link.id, link.order, graph.node? link.source,
          graph.node? link.target)) ∧
      graph.linkCount = kept.length) ∧
    (∀ u v source target, graph.node? u = some source → graph.node? v = some target →
      (graph.children source).count target =
        kept.countP (fun link => link.source = u ∧ link.target = v) ∧
      (graph.parents target).count source =
        kept.countP (fun link => link.source = u ∧ link.target = v)) ∧
    ∀ node, graph.ListsAlong (·.target) Link.StandsBefore
        (kept.filter fun link => graph.node? link.source = some node) (graph.children node) ∧
      graph.ListsAlong (·.source) (fun a b => a.id ≤ b.id)
        (kept.filter fun link => graph.node? link.target = some node) (graph.parents node) := by
  intro graph kept
  have hattached : graph.IsAttached := ofParts_isAttached ideas links
  have harcs : graph.arcs = kept.map .ofLink := ofParts_arcs ideas links
  refine ⟨⟨?_, ?_⟩, fun id => ⟨exists_place?_live_iff, fun node => node?_eq_some_iff⟩, ⟨?_, ?_⟩,
      ?_, fun node =>
    ⟨hattached.children_listsAlong harcs node, hattached.parents_listsAlong harcs node⟩⟩
  · exact List.map_get_finRange _
  · exact List.countP_eq_length_filter.symm
  · rw [hattached.map_edges, harcs, List.map_map]
    rfl
  · rw [linkCount, ← List.length_map graph.arcOf, ← arcs, harcs, List.length_map]
  · intro u v source target hsource htarget
    rw [(hattached.children_listsAlong harcs source).count htarget,
      (hattached.parents_listsAlong harcs target).count hsource, List.countP_filter,
      List.countP_filter]
    simp [node?_eq_iff hsource, node?_eq_iff htarget, Bool.and_comm]

/-- Three live ideas, the last two with one id, and a deleted one. Two links lead from the first
idea to that id, one with an order that is not a number and one with a negative zero, and one leads
back. The second of them has its id in common with a link from the first idea to itself. One link
has been removed, and two lead to no live idea. -/
def sharedId : List Idea × List Link :=
  let now : Timestamp := ⟨0, 0⟩
  let idea (id : Id) (tombstone : Option Timestamp) : Idea :=
    ⟨id, 1, .idea, none, none, none, false, now, now, tombstone, 1⟩
  let link (id source target : Id) (order : Place) (tombstone : Option Timestamp) : Link :=
    ⟨id, source, target, order, inclusionType, now, tombstone⟩
  ([idea 1 none, idea 2 none, idea 3 now, idea 2 none],
    [link 10 1 2 ⟨0x7ff8000000000000⟩ none, link 11 1 1 .zero none, link 11 1 2 .negativeZero none,
      link 12 1 3 .zero none, link 13 1 4 .zero none, link 14 1 2 .zero now,
      link 15 2 1 ⟨0xfff8000000000000⟩ none])

/-- The id stands for the last of the two ideas. Both links from the first idea to it are told, at
either end. -/
theorem sharedId_neighbors :
    let graph := ofParts sharedId.1 sharedId.2
    let first : graph.Node := ⟨0, by decide⟩
    let last : graph.Node := ⟨2, by decide⟩
    graph.node? 1 = some first ∧ graph.node? 2 = some last ∧ graph.ideaCount = 3 ∧
      graph.linkCount = 4 ∧
      (graph.children first).count last = 2 ∧ (graph.parents last).count first = 2 := by
  intro graph first last
  obtain ⟨⟨-, hideas⟩, -, ⟨-, hlinks⟩, hcounts, -⟩ := ofParts_neighbors sharedId.1 sharedId.2
  have hfirst : graph.node? 1 = some first := rfl
  have hlast : graph.node? 2 = some last := rfl
  have hkept : (keptLinks sharedId.1 sharedId.2).length = 4 := by decide +kernel
  have hjoining : ((keptLinks sharedId.1 sharedId.2).countP fun link => link.source = 1 ∧
      link.target = 2) = 2 := by
    decide +kernel
  obtain ⟨hchildren, hparents⟩ := hcounts 1 2 first last hfirst hlast
  exact ⟨hfirst, hlast, hideas, hlinks.trans hkept, hchildren.trans hjoining,
    hparents.trans hjoining⟩

end Graph

end Deliberation
