import Deliberation.Graph.Basic
import Deliberation.Proofs.Place
import Mathlib.Data.List.Nodup

/-!
The graph that is put together from ideas and links. Where no id is used twice, a node is the same
as the id of its idea, an edge is the same as the link that it comes from, and neighbours can be
told by ids: the children of a node stand in the order of their links, and so do its parents,
however the edges are kept.
-/

namespace Deliberation

/-- Lists with the same members are sorted alike if different members are never in both orders. -/
theorem mergeSort_congr {α : Type} {le : α → α → Bool} {l others : List α}
    (htrans : ∀ a b c, le a b = true → le b c = true → le a c = true)
    (htotal : ∀ a b, (le a b || le b a) = true)
    (hanti : ∀ a ∈ l, ∀ b ∈ l, le a b = true → le b a = true → a = b) (hperm : l.Perm others) :
    l.mergeSort le = others.mergeSort le := by
  refine List.Perm.eq_of_pairwise ?_ (List.pairwise_mergeSort htrans htotal l)
    (List.pairwise_mergeSort htrans htotal others)
    ((List.mergeSort_perm l le).trans (hperm.trans (List.mergeSort_perm others le).symm))
  intro a b ha hb
  exact hanti a (List.mem_mergeSort.mp ha) b (hperm.mem_iff.mpr (List.mem_mergeSort.mp hb))

/-- What is chosen and sorted by its images, has its images chosen and sorted. -/
theorem map_sort_filter {α β : Type} (f : α → β) (le : β → β → Bool) (keep : β → Bool)
    (l : List α) :
    ((l.filter fun a => keep (f a)).mergeSort fun a b => le (f a) (f b)).map f =
      ((l.map f).filter keep).mergeSort le := by
  rw [List.filter_map]
  exact List.map_mergeSort fun _ _ _ _ => rfl

namespace Graph

structure Arc where
  link : Id
  order : Place
  source : Id
  target : Id

namespace Arc

/-- Whether `a` may stand before `b` among the arcs to children. -/
def isChildOrder (a b : Arc) : Bool := a.order.isBefore a.link b.order b.link

/-- Whether `a` may stand before `b` among the arcs from parents. -/
def isParentOrder (a b : Arc) : Bool := decide (a.link ≤ b.link)

theorem isChildOrder_trans (a b c : Arc) (hab : isChildOrder a b) (hbc : isChildOrder b c) :
    isChildOrder a c :=
  Place.isBefore_trans hab hbc

theorem isChildOrder_total (a b : Arc) : (isChildOrder a b || isChildOrder b a) = true :=
  Place.isBefore_total _ _ _ _

theorem isParentOrder_trans (a b c : Arc) (hab : isParentOrder a b) (hbc : isParentOrder b c) :
    isParentOrder a c :=
  decide_eq_true (Int.le_trans (of_decide_eq_true hab) (of_decide_eq_true hbc))

theorem isParentOrder_total (a b : Arc) : (isParentOrder a b || isParentOrder b a) = true := by
  simpa [isParentOrder] using Int.le_total a.link b.link

/-- Arcs with ids of their own are sorted alike whatever order they come in. -/
theorem sort_children {arcs others : List Arc} (hdistinct : (arcs.map link).Nodup)
    (hperm : arcs.Perm others) : arcs.mergeSort isChildOrder = others.mergeSort isChildOrder := by
  refine mergeSort_congr isChildOrder_trans isChildOrder_total ?_ hperm
  intro a ha b hb hab hba
  exact List.inj_on_of_nodup_map hdistinct ha hb (Place.isBefore_antisymm hab hba).2

theorem sort_parents {arcs others : List Arc} (hdistinct : (arcs.map link).Nodup)
    (hperm : arcs.Perm others) : arcs.mergeSort isParentOrder = others.mergeSort isParentOrder := by
  refine mergeSort_congr isParentOrder_trans isParentOrder_total ?_ hperm
  intro a ha b hb hab hba
  exact List.inj_on_of_nodup_map hdistinct ha hb
    (Int.le_antisymm (of_decide_eq_true hab) (of_decide_eq_true hba))

end Arc

/-! ## Nodes and their ids -/

/-- An id has a place exactly if one of the ideas has it. -/
theorem exists_place?_iff {ideas : List Idea} {id : Id} :
    (∃ place, place? ideas id = some place) ↔ ∃ idea ∈ ideas, idea.id = id := by
  induction ideas with
  | nil => simp [place?]
  | cons idea rest ih =>
    rw [place?]
    cases hrest : place? rest id with
    | some place =>
      have hfound := ih.mp ⟨place, hrest⟩
      simp [hfound]
    | none =>
      have hnone : ¬ ∃ idea ∈ rest, idea.id = id :=
        fun hfound => by simpa [hrest] using ih.mpr hfound
      simp only [List.mem_cons, exists_eq_or_imp, hnone, or_false]
      by_cases hhere : idea.id = id
      · simp [hhere]
      · simp [hhere]

/-- An id stands for the last idea that has it. -/
theorem place?_eq_some_iff {ideas : List Idea} {id : Id} {place : Fin ideas.length} :
    place? ideas id = some place ↔
      (ideas.get place).id = id ∧ ∀ later, place < later → (ideas.get later).id ≠ id := by
  induction ideas with
  | nil => exact place.elim0
  | cons idea rest ih =>
    rw [place?]
    cases hrest : place? rest id with
    | some found =>
      have hfound : (rest.get found).id = id := (ih.mp hrest).1
      cases place using Fin.cases with
      | zero =>
        simp only [Option.some.injEq, Fin.succ_ne_zero, false_iff, not_and]
        exact fun _ hlast => hlast found.succ found.succ_pos hfound
      | succ place =>
        rw [Option.some.injEq, Fin.succ_inj, ← Option.some.injEq, ← hrest, ih]
        simp [Fin.forall_fin_succ]
    | none =>
      have hnone : ∀ place : Fin rest.length, (rest.get place).id ≠ id := fun place hplace => by
        simpa [hrest] using exists_place?_iff.mpr ⟨_, List.get_mem rest place, hplace⟩
      cases place using Fin.cases with
      | zero => simpa [Fin.forall_fin_succ] using fun _ => hnone
      | succ place =>
        refine iff_of_false (fun hsame => ?_) fun hplace => hnone place hplace.1
        dsimp only at hsame
        split at hsame
        · exact Fin.succ_ne_zero place (Option.some.inj hsame).symm
        · cases hsame

theorem id_of_place? {ideas : List Idea} {id : Id} {place : Fin ideas.length}
    (h : place? ideas id = some place) : (ideas.get place).id = id :=
  (place?_eq_some_iff.mp h).1

/-- No two ideas of the graph have one id. -/
def HasDistinctIds (graph : Graph) : Prop := (graph.ideas.map (·.id)).Nodup

variable {graph : Graph}

def idOf (graph : Graph) (node : graph.Node) : Id := (graph.idea node).id

theorem HasDistinctIds.idOf_inj (h : graph.HasDistinctIds) {a b : graph.Node} :
    graph.idOf a = graph.idOf b ↔ a = b := by
  constructor
  · intro hsame
    have hget := List.inj_on_of_nodup_map h (List.get_mem _ a) (List.get_mem _ b) hsame
    exact List.nodup_iff_injective_get.mp (List.Nodup.of_map _ h) hget
  · rintro rfl
    rfl

/-- A node is told by an id if it is the last one that has it. -/
theorem node?_eq_some_iff {id : Id} {node : graph.Node} :
    graph.node? id = some node ↔ graph.idOf node = id ∧ ∀ later, node < later →
      graph.idOf later ≠ id :=
  place?_eq_some_iff

theorem node?_eq_iff {id other : Id} {node : graph.Node} (h : graph.node? id = some node) :
    graph.node? other = some node ↔ other = id := by
  constructor
  · intro hother
    rw [← (node?_eq_some_iff.mp hother).1, (node?_eq_some_iff.mp h).1]
  · rintro rfl
    exact h

theorem HasDistinctIds.node?_eq_some_iff (h : graph.HasDistinctIds) {id : Id} {node : graph.Node} :
    graph.node? id = some node ↔ graph.idOf node = id := by
  rw [Graph.node?_eq_some_iff, and_iff_left_iff_imp]
  rintro rfl later hlater hsame
  exact Fin.ne_of_gt hlater (h.idOf_inj.mp hsame)

theorem exists_node?_iff {id : Id} :
    (∃ node, graph.node? id = some node) ↔ id ∈ graph.ideas.map (·.id) := by
  rw [List.mem_map]
  exact exists_place?_iff

/-! ## Edges and their links -/

def arcOf (graph : Graph) (edge : Edge graph.ideas.length) : Arc :=
  ⟨edge.link, edge.order, graph.idOf edge.source, graph.idOf edge.target⟩

def arcs (graph : Graph) : List Arc := graph.edges.map graph.arcOf

/-- Sorting some of the edges, the last one first, is sorting their arcs. -/
theorem map_sort_edges (graph : Graph) (le : Arc → Arc → Bool) (keep : Arc → Bool) :
    ((graph.edges.reverse.filter fun edge => keep (graph.arcOf edge)).mergeSort
      fun a b => le (graph.arcOf a) (graph.arcOf b)).map graph.arcOf =
        (graph.arcs.reverse.filter keep).mergeSort le := by
  rw [arcs, ← List.map_reverse]
  exact map_sort_filter graph.arcOf le keep graph.edges.reverse

theorem nodup_links_filter (hlinks : (graph.arcs.map Arc.link).Nodup) (keep : Arc → Bool) :
    ((graph.arcs.filter keep).map Arc.link).Nodup :=
  hlinks.sublist (List.filter_sublist.map Arc.link)

/-- The children of a node stand in the order of their links. -/
theorem map_idOf_children (hids : graph.HasDistinctIds) (hlinks : (graph.arcs.map Arc.link).Nodup)
    (node : graph.Node) : (graph.children node).map graph.idOf =
      ((graph.arcs.filter fun arc => arc.source == graph.idOf node).mergeSort Arc.isChildOrder).map
        Arc.target := by
  have hleaving : ∀ edge, (edge.source == node) =
      ((graph.arcOf edge).source == graph.idOf node) := by
    intro edge
    simp [arcOf, hids.idOf_inj]
  rw [
    Arc.sort_children (nodup_links_filter hlinks _) ((List.reverse_perm graph.arcs).symm.filter _),
    ← map_sort_edges, children, List.map_map, List.map_map]
  simp only [hleaving]
  rfl

/-- The parents of a node stand in the order of their links. -/
theorem map_idOf_parents (hids : graph.HasDistinctIds) (hlinks : (graph.arcs.map Arc.link).Nodup)
    (node : graph.Node) : (graph.parents node).map graph.idOf =
      ((graph.arcs.filter fun arc => arc.target == graph.idOf node).mergeSort Arc.isParentOrder).map
        Arc.source := by
  have hentering : ∀ edge, (edge.target == node) =
      ((graph.arcOf edge).target == graph.idOf node) := by
    intro edge
    simp [arcOf, hids.idOf_inj]
  rw [Arc.sort_parents (nodup_links_filter hlinks _) ((List.reverse_perm graph.arcs).symm.filter _),
    ← map_sort_edges, parents, List.map_map, List.map_map]
  simp only [hentering]
  rfl

theorem mem_children_iff (hids : graph.HasDistinctIds) {node child : graph.Node} :
    child ∈ graph.children node ↔
      ∃ arc ∈ graph.arcs, arc.source = graph.idOf node ∧ arc.target = graph.idOf child := by
  simp [children, arcs, arcOf, hids.idOf_inj, and_assoc]

/-! ## Graphs of parts -/

def Arc.ofLink (link : Link) : Arc := ⟨link.id, link.order, link.source, link.target⟩

def NamesLive (ideas : List Idea) (id : Id) : Prop := ∃ idea ∈ ideas, idea.isLive ∧ idea.id = id

instance (ideas : List Idea) (id : Id) : Decidable (NamesLive ideas id) :=
  inferInstanceAs (Decidable (∃ idea ∈ ideas, idea.isLive ∧ idea.id = id))

/-- The links that have not been removed and join live ideas. -/
def keptLinks (ideas : List Idea) (links : List Link) : List Link :=
  links.filter fun link =>
    link.isTombstone = false ∧ NamesLive ideas link.source ∧ NamesLive ideas link.target

theorem exists_place?_live_iff {ideas : List Idea} {id : Id} :
    (∃ place, place? (ideas.filter Idea.isLive) id = some place) ↔ NamesLive ideas id := by
  simp only [exists_place?_iff, List.mem_filter, and_assoc, NamesLive]

/-- The edge of a link joins the places of its two ends. -/
theorem edgeOf?_eq_some_iff {ideas : List Idea} {link : Link} {edge : Edge ideas.length} :
    edgeOf? ideas link = some edge ↔ place? ideas link.source = some edge.source ∧
      place? ideas link.target = some edge.target ∧ edge.link = link.id ∧
        edge.order = link.order := by
  obtain ⟨source, target, id, order⟩ := edge
  simp only [edgeOf?, Option.bind_eq_bind, Option.bind_eq_some_iff, Option.pure_def,
    Option.some.injEq, Edge.mk.injEq]
  constructor
  · rintro ⟨_, hsource, _, htarget, rfl, rfl, rfl, rfl⟩
    exact ⟨hsource, htarget, rfl, rfl⟩
  · rintro ⟨hsource, htarget, rfl, rfl⟩
    exact ⟨_, hsource, _, htarget, rfl, rfl, rfl, rfl⟩

/-- A link makes an edge exactly if both of its ends are ids of live ideas, and then the edge says
what the link says. -/
theorem map_arcOf_edgeOf? (ideas : List Idea) (links : List Link) (link : Link) :
    (edgeOf? (ideas.filter Idea.isLive) link).map (ofParts ideas links).arcOf =
      if NamesLive ideas link.source ∧ NamesLive ideas link.target then some (.ofLink link)
        else none := by
  split
  · rename_i hjoins
    obtain ⟨source, hsource⟩ := exists_place?_live_iff.mpr hjoins.1
    obtain ⟨target, htarget⟩ := exists_place?_live_iff.mpr hjoins.2
    have hedge : edgeOf? (ideas.filter Idea.isLive) link =
        some ⟨source, target, link.id, link.order⟩ :=
      edgeOf?_eq_some_iff.mpr ⟨hsource, htarget, rfl, rfl⟩
    rw [hedge]
    refine congrArg some ?_
    rw [Arc.ofLink, ← id_of_place? hsource, ← id_of_place? htarget]
    rfl
  · rename_i hloose
    apply Option.map_eq_none_iff.mpr
    apply Option.eq_none_iff_forall_ne_some.mpr
    intro edge hedge
    obtain ⟨hsource, htarget, -⟩ := edgeOf?_eq_some_iff.mp hedge
    exact hloose ⟨exists_place?_live_iff.mp ⟨_, hsource⟩, exists_place?_live_iff.mp ⟨_, htarget⟩⟩

/-- The edges are the links that are kept, in their order. -/
theorem ofParts_arcs (ideas : List Idea) (links : List Link) :
    (ofParts ideas links).arcs = (keptLinks ideas links).map .ofLink := by
  calc (ofParts ideas links).arcs
      = (links.filter fun link => !link.isTombstone).filterMap fun link =>
          (edgeOf? (ideas.filter Idea.isLive) link).map (ofParts ideas links).arcOf :=
            List.map_filterMap
    _ = (links.filter fun link => !link.isTombstone).filterMap fun link =>
          if NamesLive ideas link.source ∧ NamesLive ideas link.target then some (.ofLink link)
            else none := by
        simp only [map_arcOf_edgeOf?]
    _ = ((links.filter fun link => !link.isTombstone).filter fun link =>
          NamesLive ideas link.source ∧ NamesLive ideas link.target).map .ofLink := by
        symm
        rw [← List.filterMap_eq_map, List.filterMap_filter]
        simp only [decide_eq_true_eq, Function.comp_apply]
    _ = (keptLinks ideas links).map .ofLink := by
        simp [List.filter_filter, keptLinks, and_comm]

theorem ofParts_ideas {ideas : List Idea} {links : List Link} (h : ∀ idea ∈ ideas, idea.isLive) :
    (ofParts ideas links).ideas = ideas :=
  List.filter_eq_self.mpr h

/-- Links that are not removed and join live ideas are all kept. -/
theorem keptLinks_eq_self {ideas : List Idea} {links : List Link}
    (hideas : ∀ idea ∈ ideas, idea.isLive) (hlive : ∀ link ∈ links, link.isTombstone = false)
    (hends : ∀ link ∈ links, link.source ∈ ideas.map (·.id) ∧ link.target ∈ ideas.map (·.id)) :
    keptLinks ideas links = links := by
  have hnames : ∀ id ∈ ideas.map (·.id), NamesLive ideas id := by
    intro id hid
    obtain ⟨idea, hidea, rfl⟩ := List.mem_map.mp hid
    exact ⟨idea, hidea, hideas idea hidea, rfl⟩
  apply List.filter_eq_self.mpr
  intro link hlink
  have hjoins := hends link hlink
  simp [hlive link hlink, hnames _ hjoins.1, hnames _ hjoins.2]

end Graph

end Deliberation
