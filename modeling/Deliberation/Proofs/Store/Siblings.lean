import Deliberation.Proofs.Store.Children
import Mathlib.Data.List.Induction
import Mathlib.Order.Bounds.Basic

/-!
The siblings of an idea. They are found by routes: up a link to the idea, and down a link of the
same parent. Parallel links and shared parents make many routes to one sibling, and only the first
of them counts.
-/

namespace Deliberation

/-- Steps that tell lists tell, one behind the other, what each of them is known to hold. -/
theorem map_flatten_of_mapM {ε α β γ : Type} {f : α → Except ε (List β)} {xs : List α}
    {yss : List (List β)} {told : β → γ} {held : α → List γ}
    (hheld : ∀ x ys, f x = .ok ys → ys.map told = held x) (h : xs.mapM f = .ok yss) :
    yss.flatten.map told = xs.flatMap held := by
  induction xs generalizing yss with
  | nil =>
    rw [List.mapM_nil, except_pure_eq_ok_iff] at h
    subst h
    rfl
  | cons x rest ih =>
    simp only [List.mapM_cons, except_bind_eq_ok_iff, except_pure_eq_ok_iff] at h
    obtain ⟨ys, hys, others, hothers, rfl⟩ := h
    rw [List.flatten_cons, List.map_append, List.flatMap_cons, hheld x ys hys, ih hothers]

theorem exists_of_mem_flatten_mapM {ε α β : Type} {f : α → Except ε (List β)} {xs : List α}
    {yss : List (List β)} (h : xs.mapM f = .ok yss) {y : β} (hy : y ∈ yss.flatten) :
    ∃ x ∈ xs, ∃ ys, f x = .ok ys ∧ y ∈ ys := by
  induction xs generalizing yss with
  | nil =>
    rw [List.mapM_nil, except_pure_eq_ok_iff] at h
    subst h
    cases hy
  | cons x rest ih =>
    simp only [List.mapM_cons, except_bind_eq_ok_iff, except_pure_eq_ok_iff] at h
    obtain ⟨ys, hys, others, hothers, rfl⟩ := h
    rcases List.mem_append.mp hy with hfirst | hrest
    · exact ⟨x, List.mem_cons_self, ys, hys, hfirst⟩
    · obtain ⟨found, hfound, hlater⟩ := ih hothers hrest
      exact ⟨found, List.mem_cons_of_mem x hfound, hlater⟩

/-! ## First occurrences -/

/-- One id occurs in a list before the other one does. -/
def OccursBefore (ids : List Id) (one other : Id) : Prop :=
  ∃ front back, ids = front ++ one :: back ∧ one ∉ front ∧ other ∉ front ∧ other ≠ one

theorem OccursBefore.append {ids : List Id} {one other : Id} (h : OccursBefore ids one other)
    (more : List Id) : OccursBefore (ids ++ more) one other := by
  obtain ⟨front, back, rfl, hone, hother⟩ := h
  exact ⟨front, back ++ more, by simp, hone, hother⟩

theorem occursBefore_of_new {ids : List Id} {one other : Id} (hone : one ∈ ids)
    (hother : other ∉ ids) : OccursBefore ids one other := by
  obtain ⟨front, back, rfl, hfirst⟩ := List.eq_append_cons_of_mem hone
  refine ⟨front, back, rfl, hfirst, fun hmem => hother (List.mem_append_left _ hmem), ?_⟩
  rintro rfl
  exact hother (List.mem_append_right _ List.mem_cons_self)

/-- Where a list is in order, the first member with a property stands before all others that occur
no earlier. -/
theorem exists_first_of_split {α β : Type} {R : α → α → Prop} {f : α → β} {members : List α}
    {front back : List β} {b : β} (hordered : members.Pairwise R)
    (h : members.map f = front ++ b :: back) :
    ∃ first ∈ members, f first = b ∧ ∀ other ∈ members, f other ∉ front → other = first ∨
      R first other := by
  obtain ⟨before, rest, rfl, rfl, hrest⟩ := List.map_eq_append_iff.mp h
  obtain ⟨first, behind, rfl, rfl, -⟩ := List.map_eq_cons_iff.mp hrest
  refine ⟨first, List.mem_append_right _ List.mem_cons_self, rfl, fun other hother hlate => ?_⟩
  rcases List.mem_append.mp hother with hearly | hlater
  · exact absurd (List.mem_map_of_mem hearly) hlate
  · refine (List.mem_cons.mp hlater).imp_right fun hbehind => ?_
    exact (List.pairwise_cons.mp (List.pairwise_append.mp hordered).2.1).1 other hbehind

structure KeepsFirst (idea : Id) (ideas kept : List Idea) : Prop where
  subset : kept ⊆ ideas
  mem_iff : ∀ id, id ∈ kept.map (·.id) ↔ id ≠ idea ∧ id ∈ ideas.map (·.id)
  ordered : kept.Pairwise fun a b => OccursBefore (ideas.map (·.id)) a.id b.id

/-- One step of the search for siblings: a child is taken up unless it is the idea itself, or known
already. -/
def takeUp (idea : Id) (found : List Idea) (child : Idea) : List Idea :=
  if child.id = idea ∨ found.any (·.id = child.id) then found else found ++ [child]

namespace KeepsFirst

variable {idea : Id} {ideas kept : List Idea} {child : Idea} (h : KeepsFirst idea ideas kept)

include h

/-- What was kept stays in the order of first occurrence when more is looked at. -/
theorem ordered_append (child : Idea) :
    kept.Pairwise fun a b => OccursBefore ((ideas ++ [child]).map (·.id)) a.id b.id := by
  refine h.ordered.imp fun hbefore => ?_
  rw [List.map_append]
  exact hbefore.append _

/-- A child that was met before, or is the idea itself, is passed over. -/
theorem skip (hskipped : child.id = idea ∨ child.id ∈ kept.map (·.id)) :
    KeepsFirst idea (ideas ++ [child]) kept := by
  refine ⟨fun idea hidea => List.mem_append_left _ (h.subset hidea), fun id => ?_,
    h.ordered_append child⟩
  rw [h.mem_iff, List.map_append, List.mem_append, List.map_singleton, List.mem_singleton]
  refine and_congr_right fun hother => (or_iff_left_of_imp ?_).symm
  rintro rfl
  exact ((h.mem_iff _).mp (hskipped.resolve_left hother)).2

theorem push (hother : child.id ≠ idea) (hnew : child.id ∉ kept.map (·.id)) :
    KeepsFirst idea (ideas ++ [child]) (kept ++ [child]) := by
  have hunknown : child.id ∉ ideas.map (·.id) := fun hmem => hnew ((h.mem_iff _).mpr ⟨hother, hmem⟩)
  constructor
  case subset =>
    intro found hfound
    exact List.mem_append.mpr ((List.mem_append.mp hfound).imp_left fun hold => h.subset hold)
  case mem_iff =>
    intro id
    simp only [List.map_append, List.mem_append, h.mem_iff, List.map_singleton, List.mem_singleton]
    constructor
    · rintro (⟨hne, hmem⟩ | rfl)
      · exact ⟨hne, Or.inl hmem⟩
      · exact ⟨hother, Or.inr rfl⟩
    · rintro ⟨hne, hmem | rfl⟩
      · exact Or.inl ⟨hne, hmem⟩
      · exact Or.inr rfl
  case ordered =>
    refine List.pairwise_append.mpr ⟨h.ordered_append child, List.pairwise_singleton _ _,
      fun a ha b hb => ?_⟩
    obtain rfl := List.mem_singleton.mp hb
    rw [List.map_append]
    exact (occursBefore_of_new (List.mem_map_of_mem (h.subset ha)) hunknown).append _

theorem takeUp (child : Idea) : KeepsFirst idea (ideas ++ [child]) (takeUp idea kept child) := by
  have hknown : (kept.any (·.id = child.id)) = true ↔ child.id ∈ kept.map (·.id) := by
    simp only [List.any_eq_true, decide_eq_true_eq, List.mem_map]
  unfold Deliberation.takeUp
  split
  · rename_i hskipped
    rw [hknown] at hskipped
    exact h.skip hskipped
  · rename_i htaken
    rw [hknown, not_or] at htaken
    exact h.push htaken.1 htaken.2

end KeepsFirst

/-- By induction on the children, going through them keeps the first occurrence of each. -/
theorem keepsFirst_foldl (idea : Id) (ideas : List Idea) :
    KeepsFirst idea ideas (ideas.foldl (takeUp idea) []) := by
  induction ideas using List.reverseRecOn with
  | nil => exact ⟨List.Subset.refl _, by simp, List.Pairwise.nil⟩
  | append_singleton ideas child ih =>
    rw [List.foldl_append]
    exact ih.takeUp child

namespace Store

variable {store : Store} {idea one other : Id}

/-! ## Routes -/

/-- A way up a link to an idea, and down a link from where that one comes. -/
abbrev Route := (Id × LinkRow) × (Id × LinkRow)

/-- The routes from an idea: by the link that leads up, and below one parent by the order of its
children. -/
def routes (store : Store) (idea : Id) : List Route :=
  (store.parentLinks idea).flatMap fun up => (store.childLinks up.2.source).map
    fun down => (up, down)

def Route.Before (a b : Route) : Prop := a.1.1 < b.1.1 ∨ a.1 = b.1 ∧ Precedes a.2 b.2

theorem Consistent.mem_parentLinks_iff (h : store.Consistent) {entry : Id × LinkRow} :
    entry ∈ store.parentLinks idea ↔ entry ∈ store.liveLinks ∧ entry.2.target = idea := by
  rw [parentLinks, List.mem_filter, Bool.and_eq_true, beq_iff_eq]
  refine and_congr_right fun hentry => and_iff_left ?_
  obtain ⟨hrow, hlive⟩ := mem_liveLinks_iff.mp hentry
  exact isLiveIdea_iff.mpr (h.isLive_source hrow hlive)

/-- A route goes up a live link to a parent and down a live link from it. -/
theorem Consistent.mem_routes_iff (h : store.Consistent) {route : Route} :
    route ∈ store.routes idea ↔
      (route.1 ∈ store.liveLinks ∧ route.1.2.target = idea) ∧
        route.2 ∈ store.liveLinks ∧ route.2.2.source = route.1.2.source := by
  simp only [routes, List.mem_flatMap, List.mem_map, h.mem_parentLinks_iff, h.mem_childLinks_iff]
  constructor
  · rintro ⟨up, hup, down, hdown, rfl⟩
    exact ⟨hup, hdown⟩
  · rintro ⟨hup, hdown⟩
    exact ⟨route.1, hup, route.2, hdown, rfl⟩

/-- Routes are tried in order: by the link to the parent, and then in the order of the children. -/
theorem IsOrderly.pairwise_routes (h : store.IsOrderly) (idea : Id) :
    (store.routes idea).Pairwise Route.Before := by
  refine List.pairwise_flatMap.mpr ⟨fun up _ => ?_, ?_⟩
  · exact List.pairwise_map.mpr
      ((h.pairwise_precedes up.2.source).imp fun hbefore => Or.inr ⟨rfl, hbefore⟩)
  · have hparents := List.pairwise_map.mp
      (nodup_of_sublist_entries (List.filter_sublist.trans List.filter_sublist :
        (store.parentLinks idea).Sublist _))
    refine hparents.imp fun {up later} hless first hfirst second hsecond => Or.inl ?_
    obtain ⟨-, -, rfl⟩ := List.mem_map.mp hfirst
    obtain ⟨-, -, rfl⟩ := List.mem_map.mp hsecond
    exact hless

/-- Reading the families of an idea goes through the routes from it. -/
theorem map_id_of_families {parents : List Idea} {families : List (List Idea)}
    (hparents : store.parents idea = .ok parents)
    (hfamilies : (parents.mapM fun parent => store.children parent.id) = .ok families) :
    families.flatten.map (·.id) = (store.routes idea).map (·.2.2.target) := by
  have hheld : families.flatten.map (·.id) =
      parents.flatMap fun parent => (store.childLinks parent.id).map (·.2.target) :=
    map_flatten_of_mapM (fun _ _ hchildren => map_id_of_children hchildren) hfamilies
  have hsources : (parents.flatMap fun parent => (store.childLinks parent.id).map (·.2.target)) =
      (parents.map (·.id)).flatMap fun parent => (store.childLinks parent).map (·.2.target) := by
    rw [List.flatMap_map]
  rw [hheld, hsources, map_id_of_parents hparents, List.flatMap_map, routes, List.map_flatMap]
  simp [List.map_map, Function.comp_def]

/-- Where everything can be read, the siblings are the first occurrences along the routes. -/
theorem Readable.exists_siblings (h : store.Readable) (idea : Id) :
    ∃ children siblings, store.siblings idea = .ok siblings ∧ KeepsFirst idea children siblings ∧
      children.map (·.id) = (store.routes idea).map (·.2.2.target) ∧
      ∀ child ∈ children, store.findIdea child.id = .ok (some child) := by
  obtain ⟨siblings, hsiblings⟩ := h.siblings idea
  have hparts := hsiblings
  simp only [Store.siblings, except_bind_eq_ok_iff, except_pure_eq_ok_iff] at hparts
  obtain ⟨parents, hparents, families, hfamilies, rfl⟩ := hparts
  refine ⟨families.flatten, _, hsiblings, keepsFirst_foldl idea families.flatten,
    map_id_of_families hparents hfamilies, fun child hchild => ?_⟩
  obtain ⟨parent, -, children, hchildren, hmem⟩ := exists_of_mem_flatten_mapM hfamilies hchild
  obtain ⟨⟨id, row⟩, hentry, hread⟩ := mem_of_readAll hchildren hmem
  obtain ⟨listed, -, hlisted⟩ := List.mem_filterMap.mp hentry
  obtain ⟨found, hfound, hsame⟩ := Option.map_eq_some_iff.mp hlisted
  obtain ⟨rfl, rfl⟩ : listed = id ∧ found = row := by simpa using hsame
  obtain rfl : child.id = listed := (IdeaRow.read_eq_ok_iff.mp hread).2.2.2.2.2.1
  exact find_eq_ok_some_iff.mpr ⟨found, hfound, hread⟩

/-! ## The order of the siblings -/

/-- The live links to an idea that come from a parent of the other idea too. -/
def sharedLinks (store : Store) (idea other : Id) : Set Id :=
  {link | ∃ row, store.links.get? link = some row ∧ row.isLive ∧ row.target = idea ∧
    store.Linked row.source other}

/-- Of the children of an idea one stands before another: one of its links precedes all those of the
other. -/
def ChildBefore (store : Store) (parent one other : Id) : Prop :=
  ∃ entry ∈ store.liveLinks, entry.2.source = parent ∧ entry.2.target = one ∧
    ∀ later ∈ store.liveLinks, later.2.source = parent → later.2.target = other →
      Precedes entry later

/-- Of the siblings of an idea one stands before another: by the first links that come from a shared
parent, and where these are the same, by the order of the children of that parent. -/
def SiblingBefore (store : Store) (idea one other : Id) : Prop :=
  ∃ first second, IsLeast (store.sharedLinks idea one) first ∧
    IsLeast (store.sharedLinks idea other) second ∧ (first < second ∨ first = second ∧
      ∃ row, store.links.get? first = some row ∧ store.ChildBefore row.source one other)

/-- The first route to a sibling starts with the first shared link. -/
theorem Consistent.isLeast_sharedLinks (h : store.Consistent) {route : Route}
    (hroute : route ∈ store.routes idea)
    (hfirst : ∀ other ∈ store.routes idea, other.2.2.target = route.2.2.target →
      other = route ∨ route.Before other) : IsLeast (store.sharedLinks idea route.2.2.target)
    route.1.1 := by
  obtain ⟨⟨hup, htarget⟩, hdown, hsource⟩ := h.mem_routes_iff.mp hroute
  obtain ⟨hrow, hlive⟩ := mem_liveLinks_iff.mp hup
  obtain ⟨hdownRow, hdownLive⟩ := mem_liveLinks_iff.mp hdown
  refine ⟨⟨_, hrow, hlive, htarget, _, _, hdownRow, hdownLive, hsource, rfl⟩, ?_⟩
  rintro link ⟨row, hlink, hlinkLive, rfl, down, downRow, hnext, hnextLive, hnextSource,
    hnextTarget⟩
  have hother : ((link, row), (down, downRow)) ∈ store.routes row.target := h.mem_routes_iff.mpr
    ⟨⟨mem_liveLinks_iff.mpr ⟨hlink, hlinkLive⟩, rfl⟩, mem_liveLinks_iff.mpr ⟨hnext, hnextLive⟩,
      hnextSource⟩
  rcases hfirst _ hother hnextTarget with rfl | hless | ⟨hsame, -⟩
  · exact Int.le_refl _
  · exact Int.le_of_lt hless
  · rw [hsame]

/-- What routes lead to first stands before what they lead to later. -/
theorem Consistent.siblingBefore_of_occursBefore (h : store.Consistent)
    (horderly : store.IsOrderly)
    (hbefore : OccursBefore ((store.routes idea).map (·.2.2.target)) one other)
    (hother : other ∈ (store.routes idea).map (·.2.2.target)) :
    store.SiblingBefore idea one other := by
  obtain ⟨front, back, hsplit, hone, hlate, hdifferent⟩ := hbefore
  obtain ⟨first, hfirst, rfl, hleast⟩ :=
    exists_first_of_split (horderly.pairwise_routes idea) hsplit
  obtain ⟨others, more, hagain, hfresh⟩ := List.eq_append_cons_of_mem hother
  obtain ⟨second, hsecond, rfl, hleastOther⟩ :=
    exists_first_of_split (horderly.pairwise_routes idea) hagain
  refine ⟨first.1.1, second.1.1, h.isLeast_sharedLinks hfirst fun route hroute hsame => ?_,
    h.isLeast_sharedLinks hsecond fun route hroute hsame => ?_, ?_⟩
  · exact hleast route hroute (by rwa [hsame])
  · exact hleastOther route hroute (by rwa [hsame])
  · have hto : ∀ route ∈ store.routes idea, route.2.2.target = second.2.2.target →
        first.Before route := by
      intro route hroute hsame
      refine (hleast route hroute (by rwa [hsame])).resolve_left ?_
      rintro rfl
      exact hdifferent hsame.symm
    obtain ⟨hup, hdown, hsource⟩ := h.mem_routes_iff.mp hfirst
    refine (hto second hsecond rfl).imp_right fun ⟨hsame, _⟩ => ?_
    refine ⟨congrArg Prod.fst hsame, first.1.2, (mem_liveLinks_iff.mp hup.1).1, first.2, hdown,
      hsource, rfl, ?_⟩
    intro later hlater hparent htarget
    have hroute : (first.1, later) ∈ store.routes idea :=
      h.mem_routes_iff.mpr ⟨hup, hlater, hparent⟩
    exact ((hto _ hroute htarget).resolve_left (Int.lt_irrefl _)).2

/-- What is known of the siblings of an idea: each is told once, as it is stored; it is another live
idea with a live parent in common; and they stand in order. -/
structure ListsSiblings (store : Store) (idea : Id) (siblings : List Idea) : Prop where
  nodup : (siblings.map (·.id)).Nodup
  stored : ∀ sibling ∈ siblings, store.findIdea sibling.id = .ok (some sibling)
  mem_iff : ∀ other, other ∈ siblings.map (·.id) ↔ other ≠ idea ∧ store.isLiveIdea other ∧
    ∃ parent, store.isLiveIdea parent ∧ store.Linked parent idea ∧ store.Linked parent other
  ordered : siblings.Pairwise fun a b => store.SiblingBefore idea a.id b.id

/-- The ends of the routes are the live ideas that share a live parent with the idea. -/
theorem Consistent.mem_map_routes_iff (h : store.Consistent) :
    other ∈ (store.routes idea).map (·.2.2.target) ↔
      store.isLiveIdea other ∧ ∃ parent, store.isLiveIdea parent ∧ store.Linked parent idea ∧
        store.Linked parent other := by
  rw [List.mem_map]
  constructor
  · rintro ⟨⟨up, down⟩, hroute, rfl⟩
    obtain ⟨⟨hup, rfl⟩, hdown, hsource⟩ := h.mem_routes_iff.mp hroute
    obtain ⟨hrow, hlive⟩ := mem_liveLinks_iff.mp hup
    obtain ⟨hdownRow, hdownLive⟩ := mem_liveLinks_iff.mp hdown
    have hlinked : store.Linked up.2.source down.2.target :=
      ⟨_, _, hdownRow, hdownLive, hsource, rfl⟩
    exact ⟨isLiveIdea_iff.mpr (h.leadsTo_forward_iff.mpr hlinked).2, up.2.source,
      isLiveIdea_iff.mpr (h.isLive_source hrow hlive), ⟨_, _, hrow, hlive, rfl, rfl⟩, hlinked⟩
  · rintro ⟨-, parent, -, ⟨link, row, hrow, hlive, rfl, rfl⟩, down, downRow, hdownRow, hdownLive,
      hsource, rfl⟩
    exact ⟨((link, row), (down, downRow)), h.mem_routes_iff.mpr
      ⟨⟨mem_liveLinks_iff.mpr ⟨hrow, hlive⟩, rfl⟩, mem_liveLinks_iff.mpr ⟨hdownRow, hdownLive⟩,
        hsource⟩, rfl⟩

/-- In a consistent store the siblings are listed as they should be. -/
theorem Consistent.listsSiblings (h : store.Consistent) (horderly : store.IsOrderly)
    (hreadable : store.Readable) (idea : Id) :
    ∃ siblings, store.siblings idea = .ok siblings ∧ store.ListsSiblings idea siblings := by
  obtain ⟨children, siblings, hsiblings, hkeeps, hroutes, hstored⟩ := hreadable.exists_siblings idea
  have hmem := hkeeps.mem_iff
  have hordered := hkeeps.ordered
  rw [hroutes] at hmem hordered
  refine ⟨siblings, hsiblings, ?_, fun sibling hsibling => hstored sibling (hkeeps.subset hsibling),
    fun other => ?_, ?_⟩
  · exact List.pairwise_map.mpr (hordered.imp fun ⟨_, _, _, _, _, hdifferent⟩ => hdifferent.symm)
  · rw [hmem, h.mem_map_routes_iff]
  · refine hordered.imp_of_mem fun {a b} _ hb hbefore => h.siblingBefore_of_occursBefore
      horderly hbefore ?_
    exact ((hmem b.id).mp (List.mem_map_of_mem hb)).2

/-- Being a sibling goes both ways: both are live, and what they have in common is the parent. -/
theorem ListsSiblings.mem_symm {siblings others : List Idea} (h : store.ListsSiblings idea siblings)
    (hothers : store.ListsSiblings other others) (hconsistent : store.Consistent)
    (hmem : other ∈ siblings.map (·.id)) : idea ∈ others.map (·.id) := by
  obtain ⟨hdifferent, -, parent, hlive, hidea, hother⟩ := (h.mem_iff other).mp hmem
  have hideaLive := isLiveIdea_iff.mpr (hconsistent.leadsTo_forward_iff.mpr hidea).2
  exact (hothers.mem_iff idea).mpr ⟨hdifferent.symm, hideaLive, parent, hlive, hother, hidea⟩

end Store

end Deliberation
