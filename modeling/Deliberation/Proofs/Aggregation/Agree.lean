import Deliberation.Aggregation.Words
import Deliberation.Proofs.Aggregation.Counts
import Deliberation.Proofs.Aggregation.Showing
import Deliberation.Proofs.Closure.Agree
import Deliberation.Proofs.Graph.Walk

/-!
Posts, rankings and words of stores that agree on a discussion. A tie joins a post to an idea of its
discussion and a reply stays in the discussion of what it replies to, so that whatever is collected
along them is collected from rows that are the same in both stores.
-/

namespace Deliberation

theorem Traced.bind_congr {α β : Type} {x y : Traced α} {next others : α → Traced β} (h : y = x)
    (hnext : ∀ a, x.result = .ok a → others a = next a) : (y >>= others) = (x >>= next) := by
  subst h
  show y.andThen others = y.andThen next
  unfold andThen
  cases hresult : y.result with
  | error e => rfl
  | ok a => simp only [hnext a hresult]

namespace Store

variable {store before after : Store} {discussion id idea post : Id} {ideas : List Id}

/-- A live idea that is read back under an id has this id, and belongs to the discussion that the
store says. -/
theorem HasIdea.of_findLiveIdea (hid : store.HasIdea discussion id) {found : Idea}
    (hfound : store.findLiveIdea id = .ok (some found)) :
    found.id = id ∧ found.discussion = discussion := by
  obtain ⟨row, hrow, hhere⟩ := hid
  unfold findLiveIdea at hfound
  rw [except_bind_eq_ok_iff] at hfound
  obtain ⟨other, hother, hlive⟩ := hfound
  rw [except_pure_eq_ok_iff, Option.filter_eq_some_iff] at hlive
  obtain ⟨rfl, -⟩ := hlive
  obtain ⟨again, hagain, hread⟩ := find_eq_ok_some_iff.mp hother
  obtain rfl := Option.some.inj (hrow.symm.trans hagain)
  obtain ⟨-, -, -, -, -, hid, hdiscussion, -⟩ := IdeaRow.read_eq_ok_iff.mp hread
  exact ⟨hid, hdiscussion.trans hhere⟩

theorem Consistent.hasIdea_iff_of_tie (h : store.Consistent) {content : Id} {row : ContentRow}
    (hrow : store.contents.get? content = some row) (hnames : row.idea = some idea) :
    store.HasIdea discussion idea ↔ store.HasPost discussion row.post := by
  obtain ⟨named, tied, hnamed, htied, hsame⟩ := h.ties content row idea hrow hnames
  simp [HasIdea, HasPost, hnamed, htied, hsame]

/-- Whatever a post replies to, directly or not, is in the same discussion. -/
theorem Consistent.hasPost_of_replies (h : store.Consistent) {pivot : Id}
    (hpost : store.HasPost discussion post)
    (hreplies : Relation.ReflTransGen (RepliesTo store.posts) post pivot) :
    store.HasPost discussion pivot := by
  obtain ⟨row, hrow, hhere⟩ := hpost
  obtain ⟨above, habove, hsame⟩ := h.discussion_of_replies hrow hreplies
  exact ⟨above, habove, hsame.trans hhere⟩

theorem hasIdea_of_isVisibleIdeaOf (h : store.isVisibleIdeaOf discussion idea) :
    store.HasIdea discussion idea := by
  obtain ⟨row, hrow, -, -, hhere⟩ := isVisibleIdeaOf_iff.mp h
  exact ⟨row, hrow, hhere⟩

theorem hasPost_of_mem_related {pair : Related} (h : pair ∈ store.related discussion ideas) :
    store.HasPost discussion pair.post := by
  obtain ⟨root, -, hpair⟩ := List.mem_flatMap.mp h
  obtain ⟨sub, hsub, rfl⟩ := List.mem_map.mp hpair
  obtain ⟨hrow, hhere, -⟩ := mem_visiblePosts_iff.mp (List.mem_filter.mp hsub).1
  exact ⟨sub.2, hrow, hhere⟩

theorem hasPost_of_mem_relatedPosts (h : post ∈ store.relatedPosts discussion ideas) :
    store.HasPost discussion post := by
  obtain ⟨pair, hpair, rfl⟩ := List.mem_map.mp (mem_ascending.mp h)
  exact hasPost_of_mem_related hpair

namespace AgreeOn

variable (h : AgreeOn discussion before after)

include h

/-! ## Related posts -/

theorem isVisibleIdeaOf_eq :
    after.isVisibleIdeaOf discussion = before.isVisibleIdeaOf discussion := by
  funext id
  rw [Bool.eq_iff_iff, isVisibleIdeaOf_iff, isVisibleIdeaOf_iff]
  exact exists_congr fun row => and_congr_left fun hrow => (h.ideas id row hrow.2.2).symm

/-- A pivot for ideas of the discussion is one in the other store too, with the same row. -/
theorem mem_pivots {isChosen : Id → Bool}
    (hchosen : ∀ idea, isChosen idea → before.HasIdea discussion idea) {entry : Id × PostRow}
    (hentry : entry ∈ before.pivots isChosen) : entry ∈ after.pivots isChosen := by
  obtain ⟨hrow, idea, hidea, content, row, hcontent, hpost, hnames, hpositive⟩ :=
    mem_pivots_iff.mp hentry
  have hhere := (h.consistent.hasIdea_iff_of_tie hcontent hnames).mp (hchosen idea hidea)
  refine mem_pivots_iff.mpr ⟨?_, idea, hidea, content, row,
    (h.contents content row hhere).mp hcontent, hpost, hnames, hpositive⟩
  rw [hpost] at hhere
  rw [h.get?_post hhere]
  exact hrow

theorem pivots_eq {isChosen : Id → Bool}
    (hchosen : ∀ idea, isChosen idea → before.HasIdea discussion idea) :
    after.pivots isChosen = before.pivots isChosen := by
  refine Table.eq_of_mem_iff List.filter_sublist List.filter_sublist fun entry =>
    ⟨?_, h.mem_pivots hchosen⟩
  exact h.symm.mem_pivots fun idea hidea => h.hasIdea_iff.mp (hchosen idea hidea)

theorem visiblePosts_eq : after.visiblePosts discussion = before.visiblePosts discussion := by
  refine h.posts.filter_entries fun entry hentry => ?_
  rw [Bool.and_eq_true, beq_iff_eq] at hentry
  exact hentry.1

/-- What is related to some ideas within a discussion depends on the discussion alone. -/
theorem related_eq (ideas : List Id) :
    after.related discussion ideas = before.related discussion ideas := by
  unfold related
  rw [h.isVisibleIdeaOf_eq, h.visiblePosts_eq, h.pivots_eq]
  intro idea hidea
  exact hasIdea_of_isVisibleIdeaOf (Bool.and_eq_true_iff.mp hidea).2

theorem relatedPosts_eq (ideas : List Id) :
    after.relatedPosts discussion ideas = before.relatedPosts discussion ideas := by
  unfold relatedPosts
  rw [h.related_eq]

theorem contributions_eq (ideas : List Id) :
    after.contributions discussion ideas = before.contributions discussion ideas := by
  unfold contributions
  rw [h.related_eq]

theorem readings_eq (user : Option Id) (hpost : before.HasPost discussion post) :
    after.readings user post = before.readings user post := by
  unfold readings
  rw [h.actions.filter_rows]
  intro row hrow
  rw [Option.any_eq_true] at hrow
  obtain ⟨agent, -, hreading⟩ := hrow
  obtain rfl : row.post = post := congrArg NewAction.post (isReading_iff.mp hreading).2
  exact hpost

/-- How many related posts there are, and how many of them are read, depends on the discussion
alone. -/
theorem relatedCounts_eq (ideas : List Id) (user : Option Id) :
    after.relatedCounts discussion ideas user = before.relatedCounts discussion ideas user := by
  have hlines : after.relatedReadings discussion ideas user =
      before.relatedReadings discussion ideas user := by
    unfold relatedReadings
    rw [h.related_eq]
    exact List.flatMap_congr fun pair hpair =>
      by rw [h.readings_eq user (hasPost_of_mem_related hpair)]
  unfold relatedCounts
  rw [hlines]

theorem postCount_eq : after.postCount discussion = before.postCount discussion := by
  unfold postCount
  rw [h.visiblePosts_eq]

theorem orphans_eq : after.orphans discussion = before.orphans discussion := by
  unfold orphans
  rw [h.isVisibleIdeaOf_eq, h.visiblePosts_eq, h.pivots_eq fun _ => hasIdea_of_isVisibleIdeaOf]

theorem synthesisCount_eq : after.synthesisCount discussion = before.synthesisCount discussion := by
  unfold synthesisCount
  rw [h.posts.filter_rows]
  intro row hrow
  rw [Bool.and_eq_true, beq_iff_eq] at hrow
  exact hrow.1

/-! ## Extracts and threads -/

theorem mem_extracts (hideas : ∀ idea ∈ ideas, before.HasIdea discussion idea)
    {entry : Id × ContentRow} (hentry : entry ∈ before.contents.entries.filter fun entry =>
      entry.2.kind == .extract && entry.2.important &&
        entry.2.idea.any fun idea => ideas.contains idea && before.isLiveIdea idea) :
    before.HasPost discussion entry.2.post ∧ entry ∈ after.contents.entries.filter fun entry =>
      entry.2.kind == .extract && entry.2.important &&
        entry.2.idea.any fun idea => ideas.contains idea && after.isLiveIdea idea := by
  obtain ⟨hmem, hchosen⟩ := List.mem_filter.mp hentry
  have hrow := Table.mem_entries_iff.mp hmem
  rw [Bool.and_eq_true, Option.any_eq_true] at hchosen
  obtain ⟨himportant, idea, hnames, hidea⟩ := hchosen
  rw [Bool.and_eq_true, List.contains_iff_mem] at hidea
  have hhere := hideas idea hidea.1
  have hpost := (h.consistent.hasIdea_iff_of_tie hrow hnames).mp hhere
  refine ⟨hpost, List.mem_filter.mpr
    ⟨Table.mem_entries_iff.mpr ((h.contents _ _ hpost).mp hrow), ?_⟩⟩
  rw [Bool.and_eq_true, Option.any_eq_true]
  refine ⟨himportant, idea, hnames, ?_⟩
  rw [h.isLiveIdea_eq hhere, Bool.and_eq_true, List.contains_iff_mem]
  exact hidea

/-- The extracts for ideas of the discussion, counted by author, depend on the discussion alone. -/
theorem extractContributions_eq (hideas : ∀ idea ∈ ideas, before.HasIdea discussion idea) :
    after.extractContributions ideas = before.extractContributions ideas := by
  have hideasAfter : ∀ idea ∈ ideas, after.HasIdea discussion idea :=
    fun idea hidea => h.hasIdea_iff.mp (hideas idea hidea)
  have hextracts := Table.eq_of_mem_iff List.filter_sublist List.filter_sublist fun entry =>
    ⟨fun hentry => (h.symm.mem_extracts hideasAfter hentry).2,
      fun hentry => (h.mem_extracts hideas hentry).2⟩
  unfold extractContributions
  rw [hextracts]
  refine congrArg contributionsOf (List.filterMap_congr fun entry hentry => ?_)
  rw [h.get?_post (h.mem_extracts hideas hentry).1]

/-- A thread does not leave its discussion, and neither do the ideas that it is tied to. -/
theorem ideasOfThread_eq (hthreaded : Threaded before.posts) (hrange : before.PostsInRange)
    (hpost : before.HasPost discussion post) :
    after.ideasOfThread post = before.ideasOfThread post := by
  refine except_bind_congr (h.findPost_eq hpost) fun found hfound => ?_
  cases found with
  | none => rfl
  | some found =>
    obtain ⟨row, hrow, hread⟩ := find_eq_ok_some_iff.mp hfound
    obtain ⟨-, -, hid, -, -, -, hancestry, -⟩ := PostRow.read_eq_ok_iff.mp hread
    have hthread : ∀ other ∈ Ancestry.ids found.ancestry ++ [found.id],
        before.HasPost discussion other := by
      intro other hother
      rw [hid, hancestry, hthreaded.mem_ids_iff hrange hrow] at hother
      exact h.consistent.hasPost_of_replies hpost hother
    have hrows : (after.contents.rows.filter fun row => row.kind.isPositive &&
        (Ancestry.ids found.ancestry ++ [found.id]).contains row.post) =
        before.contents.rows.filter fun row => row.kind.isPositive &&
          (Ancestry.ids found.ancestry ++ [found.id]).contains row.post := by
      refine h.contents.filter_rows fun row hchosen => ?_
      rw [Bool.and_eq_true, List.contains_iff_mem] at hchosen
      exact hthread row.post hchosen.2
    refine congrArg (fun ideas => Except.ok (ascending ideas)) ?_
    refine (congrArg (List.filterMap _) hrows).trans (List.filterMap_congr fun row hchosen => ?_)
    obtain ⟨hmem, hties⟩ := List.mem_filter.mp hchosen
    obtain ⟨content, hcontent⟩ := Table.mem_rows_iff.mp hmem
    rw [Bool.and_eq_true, List.contains_iff_mem] at hties
    cases hnames : row.idea with
    | none => rfl
    | some idea =>
      have hidea := (h.consistent.hasIdea_iff_of_tie hcontent hnames).mpr (hthread row.post hties.2)
      simp only [Option.filter_some, h.isLiveIdea_eq hidea]

end AgreeOn

end Store

end Deliberation
