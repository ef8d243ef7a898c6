import Deliberation.Proofs.Aggregation.Reading
import Deliberation.Proofs.Closure.Agree
import Deliberation.Proofs.Evaluation

/-!
Posts and counts of ideas that stand below other ideas. What can be reached from the lower idea can
be reached from the upper one, so that the related posts of the lower one are among those of the
upper one. The numbers follow, except that a root idea answers for all posts of its discussion,
wherever it stands in the graph.
-/

namespace Deliberation

namespace Store

variable {store : Store} {upper lower discussion post : Id}

/-- The ends of a path of live links are live. -/
theorem Consistent.isLive_ends (h : store.Consistent)
    (hpath : Relation.TransGen store.Linked upper lower) :
    (∃ row, store.ideas.get? upper = some row ∧ row.isLive) ∧
      ∃ row, store.ideas.get? lower = some row ∧ row.isLive := by
  constructor
  · obtain ⟨_, ⟨link, row, hrow, hlive, rfl, -⟩, -⟩ := Relation.TransGen.head'_iff.mp hpath
    exact h.isLive_source hrow hlive
  · obtain ⟨_, -, hlast⟩ := Relation.TransGen.tail'_iff.mp hpath
    exact (h.leadsTo_forward_iff.mpr hlast).2

/-- Ideas on a path of live links belong to one discussion. -/
theorem Consistent.discussion_eq_of_path (h : store.Consistent)
    (hpath : Relation.TransGen store.Linked upper lower) {above below : IdeaRow}
    (habove : store.ideas.get? upper = some above) (hbelow : store.ideas.get? lower = some below) :
    below.discussion = above.discussion := by
  have hupper : store.HasIdea above.discussion upper := ⟨above, habove, rfl⟩
  obtain ⟨row, hrow, hhere⟩ := h.hasIdea_of_reaches hupper (h.reaches_forward_iff.mpr hpath)
  obtain rfl := Option.some.inj (hrow.symm.trans hbelow)
  exact hhere

end Store

namespace Aggregator

open Store

variable {aggregator : Aggregator} {upper lower one other discussion : Id}

structure Includes (aggregator : Aggregator) (upper lower : Id) : Prop where
  posts : ∀ discussion, ∃ more fewer, (aggregator.relatedPosts discussion upper).result = .ok more ∧
    (aggregator.relatedPosts discussion lower).result = .ok fewer ∧ fewer ⊆ more
  read : ∀ user, ∃ more fewer, (aggregator.readCount upper user).result = .ok more ∧
    (aggregator.readCount lower user).result = .ok fewer ∧ fewer ≤ more
  /-- A root idea below other ideas would count posts that are related to none of them. -/
  total : (∀ discussion, ¬aggregator.store.IsRootOf discussion lower) →
    ∃ more fewer, (aggregator.postCount upper).result = .ok more ∧
      (aggregator.postCount lower).result = .ok fewer ∧ fewer ≤ more

/-- Posts that are related to the lower idea are related to the upper one. -/
theorem relatedPosts_subset (hconsistent : aggregator.store.Consistent)
    (hthreaded : Threaded aggregator.store.posts)
    (hpath : Relation.TransGen aggregator.store.Linked upper lower) (discussion : Id) :
    ∃ more fewer, (aggregator.relatedPosts discussion upper).result = .ok more ∧
      (aggregator.relatedPosts discussion lower).result = .ok fewer ∧ fewer ⊆ more := by
  obtain ⟨more, hmore, -, hmemMore⟩ := relatedPosts_result hconsistent hthreaded discussion upper
  obtain ⟨fewer, hfewer, -, hmemFewer⟩ := relatedPosts_result hconsistent hthreaded discussion lower
  refine ⟨more, fewer, hmore, hfewer, fun post hpost => ?_⟩
  obtain ⟨idea, hbelow, hrelated⟩ := (hmemFewer post).mp hpost
  exact (hmemMore post).mpr ⟨idea, hpath.to_reflTransGen.trans hbelow, hrelated⟩

/-- Related posts are those of the ideas found below the root, in ascending order. -/
theorem relatedPosts_facts {posts : List Id} {root : Id}
    (h : (aggregator.relatedPosts discussion root).result = .ok posts) :
    posts.Pairwise (· < ·) ∧ posts.length ≤ aggregator.store.postCount discussion := by
  obtain ⟨ideas, hideas, -⟩ := aggregator.subtree_result root
  obtain rfl := Except.ok.inj ((relatedPosts_of_subtree hideas discussion).symm.trans h)
  exact ⟨ascending_pairwise _, length_relatedPosts_le⟩

/-- An idea answers for what is below it. The upper one may be the root, whose total does not come
from the related posts. -/
theorem includes_of_path (hconsistent : aggregator.store.Consistent)
    (hthreaded : Threaded aggregator.store.posts) (hlegible : aggregator.store.Legible)
    (hversions : aggregator.store.TellsLiveVersions)
    (hpath : Relation.TransGen aggregator.store.Linked upper lower) :
    aggregator.Includes upper lower := by
  obtain ⟨⟨above, habove, haboveLive⟩, below, hbelow, hbelowLive⟩ := hconsistent.isLive_ends hpath
  have hhere := hconsistent.discussion_eq_of_path hpath habove hbelow
  obtain ⟨more, fewer, hmore, hfewer, hsubset⟩ :=
    relatedPosts_subset hconsistent hthreaded hpath above.discussion
  constructor
  case posts => exact relatedPosts_subset hconsistent hthreaded hpath
  case read =>
    intro user
    obtain ⟨posts, counts, hposts, -, -, hcount, hread, -⟩ :=
      counts_below_live hlegible hversions habove haboveLive user
    obtain ⟨others, lesser, hothers, -, -, hlesser, hotherRead, -⟩ :=
      counts_below_live hlegible hversions hbelow hbelowLive user
    rw [hhere] at hothers
    obtain rfl := Except.ok.inj (hposts.symm.trans hmore)
    obtain rfl := Except.ok.inj (hothers.symm.trans hfewer)
    refine ⟨counts.read, lesser.read, hcount, hlesser, ?_⟩
    have hle : (lesser.read : ℕ∞) ≤ counts.read := by
      rw [← hread, ← hotherRead]
      exact Set.encard_le_encard fun post hpost => ⟨hsubset hpost.1, hpost.2⟩
    exact_mod_cast hle
  case total =>
    intro hnoRoot
    have hkind : below.kind ≠ .legible .root := fun hroot => hnoRoot _ ⟨below, hbelow, rfl, hroot⟩
    obtain ⟨posts, counts, hposts, -, htotal, -, -, hother, hroot, -⟩ :=
      counts_below_live hlegible hversions habove haboveLive none
    obtain ⟨others, lesser, hothers, -, hlesser, -, -, hlesserTotal, -⟩ :=
      counts_below_live hlegible hversions hbelow hbelowLive none
    rw [hhere] at hothers
    obtain rfl := Except.ok.inj (hfewer.symm.trans hothers)
    refine ⟨counts.total, lesser.total, htotal, hlesser, ?_⟩
    rw [hlesserTotal hkind]
    by_cases htop : above.kind = .legible .root
    · rw [hroot htop]
      exact (relatedPosts_facts hfewer).2
    · obtain rfl := Except.ok.inj (hposts.symm.trans hmore)
      rw [hother htop]
      have hdistinct : List.Nodup fewer := (relatedPosts_facts hfewer).1.imp Int.ne_of_lt
      exact (List.subperm_of_subset hdistinct hsubset).length_le

/-- Ideas that answer for each other tell the same posts. -/
theorem Includes.relatedPosts_eq (h : aggregator.Includes one other)
    (hback : aggregator.Includes other one) (discussion : Id) :
    (aggregator.relatedPosts discussion one).result =
      (aggregator.relatedPosts discussion other).result := by
  obtain ⟨more, fewer, hmore, hfewer, hsubset⟩ := h.posts discussion
  obtain ⟨again, others, hagain, hothers, hsubsetBack⟩ := hback.posts discussion
  obtain rfl := Except.ok.inj (hagain.symm.trans hfewer)
  obtain rfl := Except.ok.inj (hothers.symm.trans hmore)
  rw [hmore, hfewer]
  refine congrArg Except.ok
    (eq_of_pairwise_lt (relatedPosts_facts hmore).1 (relatedPosts_facts hfewer).1 ?_)
  exact fun post => ⟨fun hpost => hsubsetBack hpost, fun hpost => hsubset hpost⟩

/-- Ideas that include each other have the same number of posts read. -/
theorem Includes.readCount_eq (h : aggregator.Includes one other)
    (hback : aggregator.Includes other one) (user : Option Id) :
    (aggregator.readCount one user).result = (aggregator.readCount other user).result := by
  obtain ⟨more, fewer, hmore, hfewer, hle⟩ := h.read user
  obtain ⟨again, others, hagain, hothers, hge⟩ := hback.read user
  obtain rfl := Except.ok.inj (hagain.symm.trans hfewer)
  obtain rfl := Except.ok.inj (hothers.symm.trans hmore)
  rw [hmore, hfewer, hle.antisymm hge]

end Aggregator

namespace Session

open Store

/-- Whatever was asked of a new database before, and under either strategy: what is told of an idea
found below another is a part of what is told of the upper one. Where two ideas are found below each
other, on a cycle of links, their related posts are the same, and as many of them have been read. -/
theorem nested_posts_after_history (medium : Medium) (watcher : Watcher) (history : History)
    (strategy : ClosureStrategy) (settings : Config.Analytics) :
    let store := storeAfter medium watcher history
    let aggregator : Aggregator := ⟨store, strategy, settings⟩
    ∀ upper, ∃ below, (strategy.descendants store upper false).result = .ok below ∧
      ∀ lower ∈ below, aggregator.Includes upper lower ∧
        ∀ cyclic, (strategy.descendants store lower false).result = .ok cyclic → upper ∈ cyclic →
          (∀ discussion, (aggregator.relatedPosts discussion upper).result =
            (aggregator.relatedPosts discussion lower).result) ∧
          ∀ user, (aggregator.readCount upper user).result =
            (aggregator.readCount lower user).result := by
  intro store aggregator upper
  have hconsistent : store.Consistent := storeAfter_consistent medium watcher history
  have hincludes : ∀ upper lower, Relation.TransGen store.Linked upper lower →
      aggregator.Includes upper lower := by
    intro upper lower hpath
    exact Aggregator.includes_of_path hconsistent (storeAfter_threaded medium watcher history)
      (storeAfter_legible medium watcher history)
      (storeAfter_tellsLiveVersions medium watcher history) hpath
  obtain ⟨below, hbelow, -, hmem⟩ := hconsistent.exists_descendants strategy upper
  refine ⟨below, hbelow, fun lower hlower => ?_⟩
  have hdown := hincludes upper lower ((hmem lower).mp hlower)
  refine ⟨hdown, fun cyclic hcyclic hupper => ?_⟩
  obtain ⟨again, hagain, -, hmemAgain⟩ := hconsistent.exists_descendants strategy lower
  obtain rfl := Except.ok.inj (hagain.symm.trans hcyclic)
  have hup := hincludes lower upper ((hmemAgain upper).mp hupper)
  exact ⟨hdown.relatedPosts_eq hup, hdown.readCount_eq hup⟩

/-- Two ideas below the root lead to each other, and only one of them has a post. -/
def discussedOnCycle : History := discussedAndRead ++ [
  (⟨7, 0⟩, .createIdea { discussion := 1 }),
  (⟨8, 0⟩, .createLink { source := 2, target := 3 }),
  (⟨9, 0⟩, .createLink { source := 3, target := 2 })]

/-- The idea without a post tells the post of the other one, and the reading of it. -/
theorem discussedOnCycle_idea_answers_for_other :
    let aggregator : Aggregator := ⟨storeAfter .memory .nobody discussedOnCycle, .native, {}⟩
    (aggregator.relatedPosts 1 2).result = (aggregator.relatedPosts 1 3).result ∧
      (aggregator.relatedPosts 1 3).result = .ok [1, 2] ∧
        (aggregator.readCount 3 (some 9)).result = .ok 1 := by
  intro aggregator
  have hcyclic : (ClosureStrategy.native.descendants aggregator.store 3 false).result =
      .ok [2, 3] := by
    rw [ClosureStrategy.descendants_native_eq]
    decide +kernel
  obtain ⟨below, hbelow, hparts⟩ :=
    nested_posts_after_history .memory .nobody discussedOnCycle .native {} 2
  have hideas : (ClosureStrategy.native.descendants aggregator.store 2 false).result =
      .ok [2, 3] := by
    rw [ClosureStrategy.descendants_native_eq]
    decide +kernel
  have hlower : 3 ∈ below := by
    obtain rfl := Except.ok.inj (hbelow.symm.trans hideas)
    decide
  obtain ⟨-, hsame⟩ := hparts 3 hlower
  have hsubtree : (aggregator.subtree 3).result = .ok [2, 3] := by
    rw [Aggregator.subtree, ClosureStrategy.descendants_native_eq]
    decide +kernel
  have hrelated : aggregator.store.relatedPosts 1 [2, 3] = [1, 2] := by
    rw [relatedPosts, ascending_eq_insertionSort]
    decide +kernel
  have hread : (aggregator.store.relatedCounts 1 [2, 3] (some 9)).read = 1 := by
    simp only [relatedCounts, ascending_eq_insertionSort]
    decide +kernel
  have hcounts := Aggregator.counts_of_live (storeAfter_legible .memory .nobody discussedOnCycle)
    (storeAfter_tellsLiveVersions .memory .nobody discussedOnCycle) rfl rfl hsubtree (some 9)
  refine ⟨(hsame _ hcyclic (by decide)).1 1, ?_, ?_⟩
  · rw [Aggregator.relatedPosts_of_subtree hsubtree, hrelated]
  · rw [Aggregator.readCount_result, hcounts]
    exact congrArg Except.ok hread

end Session

end Deliberation
