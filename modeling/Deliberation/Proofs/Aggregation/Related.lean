import Deliberation.Aggregation.Basic
import Deliberation.Proofs.Closure.Linked
import Deliberation.Proofs.Session.Thread

/-!
Which posts are related to an idea, told by paths of links and chains of replies. A post counts if
it, or a post above it, is tied to the idea or to one below it. The post that counts and the idea of
the tie have to be there for all to see; the post that is tied may be hidden, and so may the ideas
on the way to the other one.
-/

namespace Deliberation

namespace Store

variable {store : Store} {discussion post idea : Id}

/-- A post belongs under an idea, or an extract of it was taken up for the idea. -/
def TiedTo (store : Store) (post idea : Id) : Prop :=
  ∃ content row, store.contents.get? content = some row ∧ row.post = post ∧ row.idea = some idea ∧
    (row.kind = .relatedPost ∨ row.kind = .extract)

/-- An idea of a discussion is neither deleted nor hidden. -/
def ShowsIdea (store : Store) (discussion idea : Id) : Prop :=
  ∃ row, store.ideas.get? idea = some row ∧ row.isLive ∧ row.hidden = false ∧
    row.discussion = discussion

def ShowsPost (store : Store) (discussion post : Id) : Prop :=
  ∃ row, store.posts.get? post = some row ∧ row.discussion = discussion ∧ row.hidden = false

/-- A post that can be seen goes back to one that is tied to an idea that can be seen. -/
def IsRelatedTo (store : Store) (discussion post idea : Id) : Prop :=
  store.ShowsPost discussion post ∧ store.ShowsIdea discussion idea ∧
    ∃ pivot, Relation.ReflTransGen (RepliesTo store.posts) post pivot ∧ store.TiedTo pivot idea

theorem isVisibleIdeaOf_iff :
    store.isVisibleIdeaOf discussion idea ↔ store.ShowsIdea discussion idea := by
  unfold isVisibleIdeaOf ShowsIdea
  cases store.ideas.get? idea with
  | none => simp
  | some row => simp [and_assoc]

theorem mem_visiblePosts_iff {row : PostRow} : (post, row) ∈ store.visiblePosts discussion ↔
    store.posts.get? post = some row ∧ row.discussion = discussion ∧ row.hidden = false := by
  simp [visiblePosts, Table.mem_entries_iff]

theorem isPositive_iff {kind : ContentKind} :
    kind.isPositive ↔ kind = .relatedPost ∨ kind = .extract := by
  cases kind with
  | relatedPost => simp [ContentKind.isPositive]
  | extract => simp [ContentKind.isPositive]
  | threadContextBreak => simp [ContentKind.isPositive]

/-- A pivot is a stored post that is tied to a chosen idea. -/
theorem mem_pivots_iff {isChosen : Id → Bool} {row : PostRow} :
    (post, row) ∈ store.pivots isChosen ↔
      store.posts.get? post = some row ∧ ∃ idea, isChosen idea ∧ store.TiedTo post idea := by
  unfold pivots TiedTo
  rw [List.mem_filter, Table.mem_entries_iff, List.any_eq_true]
  apply and_congr_right
  intro _
  simp only [ContentRow.isPivotal, Bool.and_eq_true, isPositive_iff, Option.any_eq_true, beq_iff_eq,
    Table.mem_rows_iff]
  constructor
  · rintro ⟨content, ⟨id, hcontent⟩, ⟨hkind, idea, hidea, hchosen⟩, hpost⟩
    exact ⟨idea, hchosen, id, content, hcontent, hpost, hidea, hkind⟩
  · rintro ⟨idea, hchosen, id, content, hcontent, hpost, hidea, hkind⟩
    exact ⟨content, ⟨id, hcontent⟩, ⟨hkind, idea, hidea, hchosen⟩, hpost⟩

/-- Posts that something goes back to by replies are there. -/
theorem exists_of_replies (h : Threaded store.posts) {row : PostRow} {pivot : Id}
    (hpost : store.posts.get? post = some row)
    (hreplies : Relation.ReflTransGen (RepliesTo store.posts) post pivot) :
    ∃ above, store.posts.get? pivot = some above := by
  rcases Relation.reflTransGen_iff_eq_or_transGen.mp hreplies with rfl | hchain
  · exact ⟨row, hpost⟩
  · obtain ⟨above, hthread, -⟩ := h post row hpost
    obtain ⟨upper, hpivot, -⟩ := hthread.of_mem (hthread.mem_iff.mpr hchain)
    exact hpivot.exists_row

/-- A pair of a pivot and a post: the post can be seen and goes back to the pivot, which one of the
ideas has tied. -/
theorem mem_related_iff (h : Threaded store.posts) {ideas : List Id} {pair : Related} :
    pair ∈ store.related discussion ideas ↔
      (∃ row, store.posts.get? pair.post = some row ∧ row.discussion = discussion ∧
        row.hidden = false ∧ row.creator = pair.author) ∧
      Relation.ReflTransGen (RepliesTo store.posts) pair.post pair.pivot ∧
      ∃ idea ∈ ideas, store.ShowsIdea discussion idea ∧ store.TiedTo pair.pivot idea := by
  simp only [related, List.mem_flatMap, List.mem_map, List.mem_filter]
  constructor
  · rintro ⟨⟨pivot, pivotRow⟩, hpivot, ⟨id, row⟩, ⟨hvisible, hunder⟩, rfl⟩
    obtain ⟨hpivotRow, idea, hchosen, htied⟩ := mem_pivots_iff.mp hpivot
    obtain ⟨hrow, hhere, hshown⟩ := mem_visiblePosts_iff.mp hvisible
    rw [Bool.and_eq_true, List.contains_iff_mem, isVisibleIdeaOf_iff] at hchosen
    have hreplies := (liesUnder_iff h hpivotRow hrow).mp hunder
    exact ⟨⟨row, hrow, hhere, hshown, rfl⟩, hreplies, idea, hchosen.1, hchosen.2, htied⟩
  · rintro ⟨⟨row, hrow, hhere, hshown, hauthor⟩, hreplies, idea, hidea, hideaShown, htied⟩
    obtain ⟨pivotRow, hpivotRow⟩ := exists_of_replies h hrow hreplies
    have hchosen : (ideas.contains idea && store.isVisibleIdeaOf discussion idea) = true := by
      rw [Bool.and_eq_true, List.contains_iff_mem, isVisibleIdeaOf_iff]
      exact ⟨hidea, hideaShown⟩
    exact ⟨(pair.pivot, pivotRow), mem_pivots_iff.mpr ⟨hpivotRow, idea, hchosen, htied⟩,
      (pair.post, row),
      ⟨mem_visiblePosts_iff.mpr ⟨hrow, hhere, hshown⟩,
        (liesUnder_iff h hpivotRow hrow).mpr hreplies⟩,
      by rw [hauthor]⟩

/-- A post is related to some ideas if it is related to one of them. -/
theorem mem_relatedPosts_iff (h : Threaded store.posts) {ideas : List Id} :
    post ∈ store.relatedPosts discussion ideas ↔
      ∃ idea ∈ ideas, store.IsRelatedTo discussion post idea := by
  simp only [relatedPosts, mem_ascending, List.mem_map, mem_related_iff h]
  constructor
  · rintro ⟨pair, ⟨⟨row, hrow, hhere, hshown, -⟩, hreplies, idea, hidea, hideaShown, htied⟩, rfl⟩
    exact ⟨idea, hidea, ⟨row, hrow, hhere, hshown⟩, hideaShown, pair.pivot, hreplies, htied⟩
  · rintro ⟨idea, hidea, ⟨row, hrow, hhere, hshown⟩, hideaShown, pivot, hreplies, htied⟩
    exact ⟨⟨pivot, post, row.creator⟩,
      ⟨⟨row, hrow, hhere, hshown, rfl⟩, hreplies, idea, hidea, hideaShown, htied⟩, rfl⟩

end Store

namespace Aggregator

open Store

theorem subtree_result (aggregator : Aggregator) (root : Id) :
    ∃ ideas, (aggregator.subtree root).result = .ok ideas ∧
      aggregator.store.IsClosureOf .forward [root] true ideas := by
  obtain ⟨ideas, hideas, hclosure⟩ := expansion_result aggregator.store .forward [root] true
  exact ⟨ideas, (aggregator.strategy.descendants_result root).trans hideas, hclosure⟩

/-- The posts related to an idea are those related to the ideas of its subtree. -/
theorem relatedPosts_of_subtree {aggregator : Aggregator} {root : Id} {ideas : List Id}
    (h : (aggregator.subtree root).result = .ok ideas) (discussion : Id) :
    (aggregator.relatedPosts discussion root).result =
      .ok (aggregator.store.relatedPosts discussion ideas) := by
  unfold relatedPosts Traced.within
  rw [Traced.result_bind, h]
  rfl

/-- The related posts are told in order, each once, and they are those that the ties below the idea
lead to. -/
theorem relatedPosts_result {aggregator : Aggregator} (hconsistent : aggregator.store.Consistent)
    (hthreaded : Threaded aggregator.store.posts) (discussion root : Id) :
    ∃ posts, (aggregator.relatedPosts discussion root).result = .ok posts ∧
      posts.Pairwise (· < ·) ∧
      ∀ post, post ∈ posts ↔ ∃ idea, Relation.ReflTransGen aggregator.store.Linked root idea ∧
        aggregator.store.IsRelatedTo discussion post idea := by
  obtain ⟨ids, hsubtree, hclosure⟩ := aggregator.subtree_result root
  refine ⟨aggregator.store.relatedPosts discussion ids, relatedPosts_of_subtree hsubtree discussion,
    ascending_pairwise _, fun post => ?_⟩
  rw [mem_relatedPosts_iff hthreaded]
  simp only [hconsistent.mem_closure_iff hclosure]

end Aggregator

/-- Whatever was asked of a new database before: under either strategy the posts related to an idea
are those that can be seen and go back, by replies, to a post that is tied to the idea or to one
that live links lead to from there. -/
theorem Session.relatedPosts_after_history (medium : Medium) (watcher : Watcher) (history : History)
    (strategy : ClosureStrategy) (settings : Config.Analytics) (discussion root : Id) :
    let store := storeAfter medium watcher history
    ∃ posts, (Aggregator.relatedPosts ⟨store, strategy, settings⟩ discussion root).result =
        .ok posts ∧
      posts.Pairwise (· < ·) ∧
      ∀ post, post ∈ posts ↔ ∃ idea, Relation.ReflTransGen store.Linked root idea ∧
        store.IsRelatedTo discussion post idea :=
  Aggregator.relatedPosts_result (storeAfter_sound medium watcher history).toConsistent
    (storeAfter_threaded medium watcher history) discussion root

end Deliberation
