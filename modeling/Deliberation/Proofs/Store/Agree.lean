import Deliberation.Proofs.Graph.Snapshot
import Deliberation.Proofs.Store.Within

/-!
Reads of stores that agree on a discussion. Most reads do not ask for a discussion at all: they look
for links, ties and replies wherever these are. In consistent stores what they find belongs to the
discussion that they started from, and there the stores are the same.
-/

namespace Deliberation

/-- A sequence depends on its second part only where the first one leads. -/
theorem except_bind_congr {ε α β : Type} {x y : Except ε α} {next others : α → Except ε β}
    (h : y = x) (hnext : ∀ a, x = .ok a → others a = next a) : (y >>= others) = (x >>= next) := by
  subst h
  cases y with
  | error e => rfl
  | ok a => exact hnext a rfl

theorem except_mapM_congr {ε α β : Type} {f g : α → Except ε β} {xs : List α}
    (h : ∀ x ∈ xs, g x = f x) : xs.mapM g = xs.mapM f := by
  induction xs with
  | nil => rfl
  | cons x rest ih =>
    rw [List.mapM_cons, List.mapM_cons, h x List.mem_cons_self,
      ih fun other hother => h other (List.mem_cons_of_mem x hother)]

namespace Store

structure AgreeOn (discussion : Id) (before after : Store) : Prop extends
    SameWithin discussion before after where
  consistent : before.Consistent
  consistentAfter : after.Consistent

variable {store before after : Store} {discussion id idea : Id} {ids : List Id}

namespace AgreeOn

theorem symm (h : AgreeOn discussion before after) : AgreeOn discussion after before :=
  ⟨h.toSameWithin.symm, h.consistentAfter, h.consistent⟩

variable (h : AgreeOn discussion before after)

include h

/-! ## Single rows -/

theorem get?_idea (hid : before.HasIdea discussion id) :
    after.ideas.get? id = before.ideas.get? id := by
  obtain ⟨row, hrow, hhere⟩ := hid
  exact h.ideas.get?_eq hrow hhere

theorem get?_post (hid : before.HasPost discussion id) :
    after.posts.get? id = before.posts.get? id := by
  obtain ⟨row, hrow, hhere⟩ := hid
  exact h.posts.get?_eq hrow hhere

theorem findDiscussion_eq : after.findDiscussion discussion = before.findDiscussion discussion := by
  unfold findDiscussion find
  rw [h.home]

theorem findIdea_eq (hid : before.HasIdea discussion id) :
    after.findIdea id = before.findIdea id := by
  unfold findIdea find
  rw [h.get?_idea hid]

theorem findLiveIdea_eq (hid : before.HasIdea discussion id) :
    after.findLiveIdea id = before.findLiveIdea id := by
  unfold findLiveIdea
  rw [h.findIdea_eq hid]

theorem findPost_eq (hid : before.HasPost discussion id) :
    after.findPost id = before.findPost id := by
  unfold findPost find
  rw [h.get?_post hid]

theorem findLink_eq {row : LinkRow} (hrow : before.links.get? id = some row)
    (hsource : before.HasIdea discussion row.source) : after.findLink id = before.findLink id := by
  unfold findLink find
  rw [h.links.get?_eq hrow hsource]

theorem isLiveIdea_eq (hid : before.HasIdea discussion id) :
    after.isLiveIdea id = before.isLiveIdea id := by
  unfold isLiveIdea
  rw [h.get?_idea hid]

/-! ## Rows of the discussion -/

theorem findRoot_eq : after.findRoot discussion = before.findRoot discussion := by
  unfold findRoot rootEntry?
  rw [← List.head?_filter, ← List.head?_filter, h.ideas.filter_entries]
  intro entry hentry
  simp only [Bool.and_eq_true, beq_iff_eq] at hentry
  exact hentry.1.1

theorem discussionIdeas_eq :
    after.discussionIdeas discussion = before.discussionIdeas discussion := by
  unfold discussionIdeas
  rw [h.ideas.filter_entries]
  intro entry hentry
  simp only [Bool.and_eq_true, beq_iff_eq] at hentry
  exact hentry.1

theorem findPosts_eq (hids : ∀ id ∈ ids, before.HasPost discussion id) :
    after.findPosts ids = before.findPosts ids := by
  unfold findPosts
  refine congrArg (readAll PostRow.read) ?_
  refine Table.eq_of_mem_iff List.filter_sublist List.filter_sublist fun ⟨id, row⟩ => ?_
  rw [List.mem_filter, List.mem_filter, Table.mem_entries_iff, Table.mem_entries_iff]
  exact and_congr_left fun hid => by rw [h.get?_post (hids id (List.contains_iff_mem.mp hid))]

/-! ## Links -/

theorem isLiveIdeaOf_eq (id : Id) :
    after.isLiveIdeaOf discussion id = before.isLiveIdeaOf discussion id := by
  rw [Bool.eq_iff_iff, isLiveIdeaOf_iff, isLiveIdeaOf_iff]
  refine exists_congr fun row => and_congr_left fun hrow => ?_
  exact (h.ideas id row hrow.2).symm

theorem mem_liveLinks {entry : Id × LinkRow} (hentry : entry ∈ before.liveLinks)
    (hsource : before.HasIdea discussion entry.2.source) : entry ∈ after.liveLinks := by
  obtain ⟨hrow, hlive⟩ := mem_liveLinks_iff.mp hentry
  exact mem_liveLinks_iff.mpr ⟨(h.links entry.1 entry.2 hsource).mp hrow, hlive⟩

/-- A live link of the discussion is one in the other store too. -/
theorem mem_liveLinksOf {entry : Id × LinkRow} (hentry : entry ∈ before.liveLinksOf discussion) :
    entry ∈ after.liveLinksOf discussion := by
  obtain ⟨hmem, hends⟩ := List.mem_filter.mp hentry
  obtain ⟨hrow, hlive⟩ := mem_liveLinks_iff.mp hmem
  rw [Bool.and_eq_true] at hends
  obtain ⟨row, hsource, -, hhere⟩ := isLiveIdeaOf_iff.mp hends.1
  have htarget := (h.consistent.hasIdea_ends hrow hlive).mp ⟨row, hsource, hhere⟩
  refine List.mem_filter.mpr ⟨h.mem_liveLinks hmem ⟨row, hsource, hhere⟩, ?_⟩
  rw [h.isLiveIdeaOf_eq, h.isLiveIdea_eq htarget, Bool.and_eq_true]
  exact hends

theorem discussionLinks_eq :
    after.discussionLinks discussion = before.discussionLinks discussion := by
  have hlinks : after.liveLinksOf discussion = before.liveLinksOf discussion :=
    Table.eq_of_mem_iff (after.liveLinksOf_sublist discussion)
    (before.liveLinksOf_sublist discussion) fun _ => ⟨h.symm.mem_liveLinksOf, h.mem_liveLinksOf⟩
  exact congrArg (readAll LinkRow.read) hlinks

theorem graph_eq : after.graph discussion = before.graph discussion := by
  unfold Store.graph
  rw [h.discussionIdeas_eq, h.discussionLinks_eq]

/-- A link from a parent starts in the discussion, and it is there in the other store too. -/
theorem mem_parentLinks (hidea : before.HasIdea discussion idea) {entry : Id × LinkRow}
    (hentry : entry ∈ before.parentLinks idea) :
    before.HasIdea discussion entry.2.source ∧ entry ∈ after.parentLinks idea := by
  obtain ⟨hmem, hends⟩ := List.mem_filter.mp hentry
  obtain ⟨hrow, hlive⟩ := mem_liveLinks_iff.mp hmem
  rw [Bool.and_eq_true, beq_iff_eq] at hends
  obtain ⟨rfl, hparent⟩ := hends
  have hsource := (h.consistent.hasIdea_ends hrow hlive).mpr hidea
  refine ⟨hsource, List.mem_filter.mpr ⟨h.mem_liveLinks hmem hsource, ?_⟩⟩
  rw [h.isLiveIdea_eq hsource, Bool.and_eq_true, beq_iff_eq]
  exact ⟨rfl, hparent⟩

theorem parentLinks_eq (hidea : before.HasIdea discussion idea) :
    after.parentLinks idea = before.parentLinks idea := by
  refine Table.eq_of_mem_iff (List.filter_sublist.trans List.filter_sublist)
    (List.filter_sublist.trans List.filter_sublist) fun entry => ⟨?_, ?_⟩
  · exact fun hentry => (h.symm.mem_parentLinks (h.hasIdea_iff.mp hidea) hentry).2
  · exact fun hentry => (h.mem_parentLinks hidea hentry).2

theorem mem_childLinks (hidea : before.HasIdea discussion idea) {entry : Id × LinkRow}
    (hentry : entry ∈ before.liveLinks.filter fun entry =>
      entry.2.source == idea && before.isLiveIdea entry.2.target) :
    before.HasIdea discussion entry.2.target ∧ entry ∈ after.liveLinks.filter fun entry =>
      entry.2.source == idea && after.isLiveIdea entry.2.target := by
  obtain ⟨hmem, hends⟩ := List.mem_filter.mp hentry
  obtain ⟨hrow, hlive⟩ := mem_liveLinks_iff.mp hmem
  rw [Bool.and_eq_true, beq_iff_eq] at hends
  obtain ⟨rfl, hchild⟩ := hends
  have htarget := (h.consistent.hasIdea_ends hrow hlive).mp hidea
  refine ⟨htarget, List.mem_filter.mpr ⟨h.mem_liveLinks hmem hidea, ?_⟩⟩
  rw [h.isLiveIdea_eq htarget, Bool.and_eq_true, beq_iff_eq]
  exact ⟨rfl, hchild⟩

/-- The links to the children of an idea depend on its discussion alone. -/
theorem childLinks_eq (hidea : before.HasIdea discussion idea) :
    after.childLinks idea = before.childLinks idea := by
  refine congrArg (fun entries => List.mergeSort entries isChildOrder) ?_
  refine Table.eq_of_mem_iff (List.filter_sublist.trans List.filter_sublist)
    (List.filter_sublist.trans List.filter_sublist) fun entry => ⟨?_, ?_⟩
  · exact fun hentry => (h.symm.mem_childLinks (h.hasIdea_iff.mp hidea) hentry).2
  · exact fun hentry => (h.mem_childLinks hidea hentry).2

/-! ## Neighbours -/

theorem firstParentLink_eq (hidea : before.HasIdea discussion idea) :
    after.firstParentLink idea = before.firstParentLink idea := by
  unfold firstParentLink
  rw [h.parentLinks_eq hidea]

theorem childCount_eq (hidea : before.HasIdea discussion idea) :
    after.childCount idea = before.childCount idea := by
  unfold childCount
  rw [h.childLinks_eq hidea]

theorem ideaEntries_eq (hids : ∀ id ∈ ids, before.HasIdea discussion id) :
    after.ideaEntries ids = before.ideaEntries ids :=
  List.filterMap_congr fun id hid => by rw [h.get?_idea (hids id hid)]

theorem children_eq (hidea : before.HasIdea discussion idea) :
    after.children idea = before.children idea := by
  unfold children
  rw [h.childLinks_eq hidea, h.ideaEntries_eq]
  intro child hchild
  obtain ⟨entry, hentry, rfl⟩ := List.mem_map.mp hchild
  exact (h.mem_childLinks hidea (List.mem_mergeSort.mp hentry)).1

theorem hasIdea_of_parentLinks (hidea : before.HasIdea discussion idea) :
    ∀ parent ∈ (before.parentLinks idea).map (·.2.source), before.HasIdea discussion parent := by
  intro parent hparent
  obtain ⟨entry, hentry, rfl⟩ := List.mem_map.mp hparent
  exact (h.mem_parentLinks hidea hentry).1

theorem parents_eq (hidea : before.HasIdea discussion idea) :
    after.parents idea = before.parents idea := by
  unfold parents
  rw [h.parentLinks_eq hidea, h.ideaEntries_eq (h.hasIdea_of_parentLinks hidea)]

theorem siblings_eq (hidea : before.HasIdea discussion idea) :
    after.siblings idea = before.siblings idea := by
  refine except_bind_congr (h.parents_eq hidea) fun parents hparents => ?_
  refine except_bind_congr (except_mapM_congr fun parent hparent => h.children_eq ?_) fun _ _ => rfl
  refine h.hasIdea_of_parentLinks hidea parent.id ?_
  rw [← map_id_of_parents hparents]
  exact List.mem_map_of_mem hparent

end AgreeOn

end Store

end Deliberation
