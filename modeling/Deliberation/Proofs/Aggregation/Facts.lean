import Deliberation.Proofs.Aggregation.Answers
import Deliberation.Proofs.Aggregation.Counts
import Deliberation.Proofs.Aggregation.Showing

/-!
Answers that depend on facts alone. Ties and actions are kept in rows with numbers and dates, and
the same fact may stand in many of them. Which posts are related, read, orphaned or shown, and who
contributed, is told by what is tied and what is read, and not by the rows that say so.
-/

namespace Deliberation

namespace Store

variable {before after : Store} {discussion : Id}

/-- Two stores differ in the rows of their ties and actions only, and these tell the same: which
posts are tied to which ideas, and who has read what. -/
structure TellsSame (before after : Store) : Prop where
  rest : after = { before with contents := after.contents, actions := after.actions }
  ties : ∀ post idea, after.TiedTo post idea ↔ before.TiedTo post idea
  reads : ∀ agent post, after.ReadBy agent post ↔ before.ReadBy agent post

namespace TellsSame

variable (h : before.TellsSame after)

include h

theorem posts_eq : after.posts = before.posts := by rw [h.rest]

theorem ideas_eq : after.ideas = before.ideas := by rw [h.rest]

theorem visiblePosts_eq : after.visiblePosts discussion = before.visiblePosts discussion := by
  rw [visiblePosts, h.posts_eq, visiblePosts]

theorem isVisibleIdeaOf_eq :
    after.isVisibleIdeaOf discussion = before.isVisibleIdeaOf discussion := by
  funext idea
  rw [isVisibleIdeaOf, h.ideas_eq, isVisibleIdeaOf]

theorem isLiveIdea_eq : after.isLiveIdea = before.isLiveIdea := by
  funext idea
  rw [isLiveIdea, h.ideas_eq, isLiveIdea]

/-- A post is a pivot by what it is tied to, however often and by whichever rows. -/
theorem pivots_eq (isChosen : Id → Bool) : after.pivots isChosen = before.pivots isChosen := by
  refine Table.eq_of_mem_iff List.filter_sublist List.filter_sublist fun entry => ?_
  rw [mem_pivots_iff, mem_pivots_iff, h.posts_eq]
  simp only [h.ties]

theorem related_eq (ideas : List Id) :
    after.related discussion ideas = before.related discussion ideas := by
  rw [related, h.pivots_eq, h.visiblePosts_eq, h.isVisibleIdeaOf_eq, related]

theorem relatedPosts_eq (ideas : List Id) :
    after.relatedPosts discussion ideas = before.relatedPosts discussion ideas := by
  rw [relatedPosts, h.related_eq, relatedPosts]

theorem contributions_eq (ideas : List Id) :
    after.contributions discussion ideas = before.contributions discussion ideas := by
  rw [contributions, h.related_eq, contributions]

theorem orphans_eq : after.orphans discussion = before.orphans discussion := by
  rw [orphans, h.pivots_eq, h.visiblePosts_eq, h.isVisibleIdeaOf_eq, orphans]

theorem postCount_eq : after.postCount discussion = before.postCount discussion := by
  rw [postCount, h.visiblePosts_eq, postCount]

/-- The lines that are counted may be others, and repeat other posts, but the sets behind the counts
are the same. -/
theorem relatedCounts_eq (ideas : List Id) (user : Option Id) :
    after.relatedCounts discussion ideas user = before.relatedCounts discussion ideas user := by
  have htotal : (after.relatedCounts discussion ideas user).total =
      (before.relatedCounts discussion ideas user).total := by
    rw [relatedCounts_total, relatedCounts_total, h.relatedPosts_eq]
  have hposts : after.readPosts discussion ideas user = before.readPosts discussion ideas user := by
    simp only [readPosts, h.relatedPosts_eq, h.reads]
  have hread := congrArg Set.encard hposts
  rw [encard_readPosts, encard_readPosts] at hread
  have hreadEq : (after.relatedCounts discussion ideas user).read =
      (before.relatedCounts discussion ideas user).read := by exact_mod_cast hread
  calc after.relatedCounts discussion ideas user
      = ⟨(after.relatedCounts discussion ideas user).total,
        (after.relatedCounts discussion ideas user).read⟩ := rfl
    _ = before.relatedCounts discussion ideas user := by rw [htotal, hreadEq]

/-- A thread is tied to the same ideas in stores that tell the same. -/
theorem ideasOfThread_eq (post : Id) : after.ideasOfThread post = before.ideasOfThread post := by
  have hpost : after.findPost post = before.findPost post := by rw [findPost, h.posts_eq, findPost]
  refine except_bind_congr hpost fun found _ => ?_
  cases found with
  | none => rfl
  | some found =>
    refine congrArg Except.ok (ascending_congr fun idea => ?_)
    rw [mem_tiesOf_iff, mem_tiesOf_iff, h.isLiveIdea_eq]
    simp only [h.ties]

theorem descendants_eq (strategy : ClosureStrategy) (root : Id) (inclusive : Bool) :
    strategy.descendants after root inclusive = strategy.descendants before root inclusive := by
  rw [h.rest]
  rfl

theorem ancestors_eq (strategy : ClosureStrategy) (roots : List Id) (inclusive : Bool) :
    strategy.ancestors after roots inclusive = strategy.ancestors before roots inclusive := by
  rw [h.rest]
  rfl

theorem findLiveIdea_eq (idea : Id) : after.findLiveIdea idea = before.findLiveIdea idea := by
  rw [h.rest]
  rfl

end TellsSame

end Store

namespace Aggregator

variable {one other aggregator : Aggregator} {after : Store}

structure SameAnswers (one other : Aggregator) : Prop where
  relatedPosts :
    ∀ discussion idea, other.relatedPosts discussion idea = one.relatedPosts discussion idea
  postCounts : ∀ idea user, other.postCounts idea user = one.postCounts idea user
  orphans : ∀ discussion, other.orphans discussion = one.orphans discussion
  contributors : ∀ idea, other.contributors idea = one.contributors idea
  ideasShowing : ∀ post, other.ideasShowing post = one.ideasShowing post

section

variable (h : aggregator.store.TellsSame after)

include h

theorem subtree_withFacts (root : Id) :
    (aggregator.withStore after).subtree root = aggregator.subtree root :=
  h.descendants_eq aggregator.strategy root true

theorem counts_withFacts (idea : Id) (user : Option Id) :
    (aggregator.withStore after).counts idea user = aggregator.counts idea user := by
  simp only [counts, subtree_withFacts h]
  simp only [withStore, h.findLiveIdea_eq, h.relatedCounts_eq, h.postCount_eq]

theorem ancestorsOfEach_withFacts (ideas : List Id) :
    (aggregator.withStore after).ancestorsOfEach ideas = aggregator.ancestorsOfEach ideas :=
  ancestorsOfEach_congr fun idea _ => h.ancestors_eq aggregator.strategy [idea] true

/-- Every answer about ties and readings is a function of what the ties and the actions tell. -/
theorem sameAnswers_withFacts : aggregator.SameAnswers (aggregator.withStore after) where
  relatedPosts discussion idea := by
    simp only [Aggregator.relatedPosts, subtree_withFacts h]
    simp only [withStore, h.relatedPosts_eq]
  postCounts idea user := by rw [Aggregator.postCounts, counts_withFacts h, Aggregator.postCounts]
  orphans discussion := by simp only [Aggregator.orphans, withStore, h.orphans_eq]
  contributors idea := by
    simp only [Aggregator.contributors, subtree_withFacts h]
    simp only [withStore, h.findLiveIdea_eq, h.contributions_eq]
  ideasShowing post := by
    simp only [Aggregator.ideasShowing, showing, ancestorsOfEach_withFacts h]
    simp only [withStore, h.ideasOfThread_eq, h.ancestors_eq]

end

end Aggregator

end Deliberation
