import Deliberation.Proofs.Aggregation.Counts
import Mathlib.Logic.Basic

/-!
Orphans. They are looked for without any idea to start from: what lies under a post that is tied to
a visible idea of the discussion is taken away from all the posts that can be seen. What is related
to an idea is looked for along the links below that idea. The two never overlap, and together with
the syntheses they leave no post out.
-/

namespace Deliberation

namespace Store

variable {store : Store} {discussion post : Id}

/-- A post is a synthesis, which belongs to the discussion as a whole. -/
def IsSynthesis (store : Store) (post : Id) : Prop :=
  ∃ row, store.posts.get? post = some row ∧ row.kind = .legible .synthesis

/-- A post is related to some idea of a discussion, wherever it is in the graph. -/
def IsRelated (store : Store) (discussion post : Id) : Prop :=
  ∃ idea, store.IsRelatedTo discussion post idea

/-- A post that can be seen is related to an idea if it lies under a post that is tied to a visible
one. -/
theorem isRelated_iff_liesUnder (h : Threaded store.posts) {row : PostRow}
    (hvisible : (post, row) ∈ store.visiblePosts discussion) :
    store.IsRelated discussion post ↔
      ∃ root ∈ store.pivots (store.isVisibleIdeaOf discussion), liesUnder root (post, row) := by
  obtain ⟨hrow, hhere, hshown⟩ := mem_visiblePosts_iff.mp hvisible
  constructor
  · rintro ⟨idea, -, hidea, pivot, hreplies, htied⟩
    obtain ⟨pivotRow, hpivot⟩ := exists_of_replies h hrow hreplies
    refine ⟨(pivot, pivotRow), ?_, (liesUnder_iff h hpivot hrow).mpr hreplies⟩
    exact mem_pivots_iff.mpr ⟨hpivot, idea, isVisibleIdeaOf_iff.mpr hidea, htied⟩
  · rintro ⟨⟨pivot, pivotRow⟩, hroot, hunder⟩
    obtain ⟨hpivot, idea, hchosen, htied⟩ := mem_pivots_iff.mp hroot
    exact ⟨idea, ⟨row, hrow, hhere, hshown⟩, isVisibleIdeaOf_iff.mp hchosen, pivot,
      (liesUnder_iff h hpivot hrow).mp hunder, htied⟩

/-- A post is an orphan if it is visible, not a synthesis, and not related to any idea of the
discussion. -/
theorem mem_orphans_iff (h : Threaded store.posts) : post ∈ store.orphans discussion ↔
    store.ShowsPost discussion post ∧ ¬store.IsSynthesis post ∧
    ¬store.IsRelated discussion post := by
  simp only [orphans, List.mem_map, List.mem_filter, Bool.and_eq_true, Bool.not_eq_true',
    bne_iff_ne]
  constructor
  · rintro ⟨⟨id, row⟩, ⟨hvisible, hkind, hfree⟩, rfl⟩
    have hrow := mem_visiblePosts_iff.mp hvisible
    refine ⟨⟨row, hrow⟩, ?_, ?_⟩
    · rintro ⟨again, hagain, hsynthesis⟩
      obtain rfl := Option.some.inj (hagain.symm.trans hrow.1)
      exact hkind hsynthesis
    · rw [isRelated_iff_liesUnder h hvisible, ← List.any_eq_true, hfree]
      exact Bool.false_ne_true
  · rintro ⟨⟨row, hrow⟩, hkind, hfree⟩
    have hvisible := mem_visiblePosts_iff.mpr hrow
    rw [isRelated_iff_liesUnder h hvisible, ← List.any_eq_true, Bool.not_eq_true] at hfree
    exact ⟨(post, row), ⟨hvisible, fun hsynthesis => hkind ⟨row, hrow.1, hsynthesis⟩, hfree⟩, rfl⟩

theorem orphans_pairwise (store : Store) (discussion : Id) :
    (store.orphans discussion).Pairwise (· < ·) :=
  store.posts.pairwise_entries.sublist ((List.filter_sublist.trans List.filter_sublist).map _)

/-- The posts that can be seen are the orphans, the related posts, and the syntheses that are not
related. -/
theorem postCount_eq_add (h : Threaded store.posts) (discussion : Id) :
    (store.postCount discussion : ℕ∞) = (store.orphans discussion).length +
      {post | store.IsRelated discussion post}.encard +
      {post | (store.ShowsPost discussion post ∧ store.IsSynthesis post) ∧
        ¬store.IsRelated discussion post}.encard := by
  have horphans := encard_of_ascending (store.orphans_pairwise discussion) fun _ =>
    mem_orphans_iff h
  have hparts : {post | store.ShowsPost discussion post} =
      {post | store.ShowsPost discussion post ∧ ¬store.IsSynthesis post ∧
        ¬store.IsRelated discussion post} ∪ {post | store.IsRelated discussion post} ∪
      {post | (store.ShowsPost discussion post ∧ store.IsSynthesis post) ∧
        ¬store.IsRelated discussion post} := by
    ext post
    have hshows : store.IsRelated discussion post → store.ShowsPost discussion post :=
      fun ⟨_, hrelated⟩ => hrelated.1
    simp only [Set.mem_union, Set.mem_ofPred_eq]
    tauto
  rw [← encard_visible, hparts, Set.encard_union_eq, Set.encard_union_eq, horphans]
  · exact Set.disjoint_left.mpr fun post horphan hrelated => horphan.2.2 hrelated
  · refine Set.disjoint_left.mpr fun post hother hsynthesis => ?_
    rcases hother with horphan | hrelated
    · exact horphan.2.1 hsynthesis.1.2
    · exact hsynthesis.2 hrelated

end Store

namespace Aggregator

open Store

variable {aggregator : Aggregator} {discussion post : Id}

/-- A post is among those related to some idea, of this discussion or of another one, deleted or
not. -/
def IsCovered (aggregator : Aggregator) (discussion post : Id) : Prop :=
  ∃ idea row posts, aggregator.store.ideas.get? idea = some row ∧
    (aggregator.relatedPosts discussion idea).result = .ok posts ∧ post ∈ posts

/-- Following links from one idea to the next adds no post to those of all ideas. -/
theorem isCovered_iff (hconsistent : aggregator.store.Consistent)
    (hthreaded : Threaded aggregator.store.posts) :
    aggregator.IsCovered discussion post ↔ aggregator.store.IsRelated discussion post := by
  constructor
  · rintro ⟨idea, -, posts, -, hposts, hmem⟩
    obtain ⟨again, hagain, -, hmemAgain⟩ :=
      relatedPosts_result hconsistent hthreaded discussion idea
    obtain rfl := Except.ok.inj (hposts.symm.trans hagain)
    obtain ⟨tied, -, hrelated⟩ := (hmemAgain post).mp hmem
    exact ⟨tied, hrelated⟩
  · rintro ⟨idea, hrelated⟩
    obtain ⟨posts, hposts, -, hmem⟩ := relatedPosts_result hconsistent hthreaded discussion idea
    obtain ⟨row, hrow, -⟩ := hrelated.2.1
    exact ⟨idea, row, posts, hrow, hposts, (hmem post).mpr ⟨idea, .refl, hrelated⟩⟩

end Aggregator

namespace Session

open Store

/-- Whatever was asked of a new database before, and under either strategy: a post that can be seen
and is no synthesis is either an orphan or related to some idea, only such posts are orphans, and
the orphans, the posts related to some idea and the syntheses that are not related to any make up
all that can be seen. -/
theorem orphans_after_history (medium : Medium) (watcher : Watcher) (history : History)
    (strategy : ClosureStrategy) (settings : Config.Analytics) (discussion : Id) :
    let store := storeAfter medium watcher history
    let aggregator : Aggregator := ⟨store, strategy, settings⟩
    ∃ orphans, (aggregator.orphans discussion).result = .ok orphans ∧
      (aggregator.orphanCount discussion).result = .ok orphans.length ∧ orphans.Pairwise (· < ·) ∧
      (∀ idea, ∃ posts, (aggregator.relatedPosts discussion idea).result = .ok posts ∧
        ∀ post ∈ posts, aggregator.IsCovered discussion post) ∧
      (∀ post, store.ShowsPost discussion post → ¬store.IsSynthesis post →
        Xor (post ∈ orphans) (aggregator.IsCovered discussion post)) ∧
      (∀ post ∈ orphans, store.ShowsPost discussion post ∧ ¬store.IsSynthesis post) ∧
      (store.postCount discussion : ℕ∞) = orphans.length +
        {post | aggregator.IsCovered discussion post}.encard +
        {post | (store.ShowsPost discussion post ∧ store.IsSynthesis post) ∧
          ¬aggregator.IsCovered discussion post}.encard := by
  intro store aggregator
  have hconsistent : aggregator.store.Consistent := storeAfter_consistent medium watcher history
  have hthreaded : Threaded aggregator.store.posts := storeAfter_threaded medium watcher history
  have hcovered : ∀ post, aggregator.IsCovered discussion post ↔ store.IsRelated discussion post :=
    fun _ => Aggregator.isCovered_iff hconsistent hthreaded
  simp only [hcovered]
  refine ⟨store.orphans discussion, rfl, rfl, store.orphans_pairwise discussion, ?_, ?_, ?_,
    postCount_eq_add hthreaded discussion⟩
  · intro idea
    obtain ⟨posts, hposts, -, hmem⟩ :=
      Aggregator.relatedPosts_result hconsistent hthreaded discussion idea
    refine ⟨posts, hposts, fun post hpost => ?_⟩
    obtain ⟨tied, -, hrelated⟩ := (hmem post).mp hpost
    exact ⟨tied, hrelated⟩
  · intro post hshows hkind
    apply xor_iff_iff_not.mpr
    constructor
    · intro horphan
      exact ((mem_orphans_iff hthreaded).mp horphan).2.2
    · intro hfree
      exact (mem_orphans_iff hthreaded).mpr ⟨hshows, hkind, hfree⟩
  · intro post horphan
    obtain ⟨hshows, hkind, -⟩ := (mem_orphans_iff hthreaded).mp horphan
    exact ⟨hshows, hkind⟩

end Session

end Deliberation
