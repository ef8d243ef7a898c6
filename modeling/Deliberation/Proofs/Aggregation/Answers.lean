import Deliberation.Proofs.Aggregation.Agree

/-!
Answers about a discussion from stores that agree on it. The answers are the same with all that is
logged on the way: the closures have the same sizes and take the same rounds, and walks go through
the same graph.
-/

namespace Deliberation

namespace Store

variable {store before after : Store} {discussion root : Id} {graph : Graph}

/-- The ideas in the graph of a discussion belong to it. -/
theorem hasIdea_of_graph (hgraph : store.graph discussion = .ok graph) {idea : Idea}
    (hidea : idea ∈ graph.ideas) :
    store.HasIdea discussion idea.id ∧ idea.discussion = discussion := by
  unfold Store.graph at hgraph
  simp only [except_bind_eq_ok_iff, except_pure_eq_ok_iff] at hgraph
  obtain ⟨ideas, hideas, links, -, rfl⟩ := hgraph
  obtain ⟨⟨id, row⟩, hentry, hread⟩ := mem_of_readAll hideas (List.mem_filter.mp hidea).1
  obtain ⟨hmem, hhere⟩ := List.mem_filter.mp hentry
  simp only [Bool.and_eq_true, beq_iff_eq] at hhere
  obtain ⟨-, -, -, -, -, hid, hdiscussion, -⟩ := IdeaRow.read_eq_ok_iff.mp hread
  refine ⟨⟨row, ?_, hhere.1⟩, hdiscussion.trans hhere.1⟩
  rw [hid]
  exact Table.mem_entries_iff.mp hmem

theorem graph_of_graphAround (hroot : store.HasIdea discussion root)
    (haround : store.graphAround root = .ok (some graph)) : store.graph discussion = .ok graph := by
  unfold graphAround at haround
  rw [except_bind_eq_ok_iff] at haround
  obtain ⟨found, hfound, hrest⟩ := haround
  cases found with
  | none => cases hrest
  | some found =>
    simp only [except_bind_eq_ok_iff, except_pure_eq_ok_iff,
      (hroot.of_findLiveIdea hfound).2] at hrest
    obtain ⟨loaded, hloaded, hsame⟩ := hrest
    rw [hloaded, Option.some.inj hsame]

theorem Consistent.hasIdea_of_threadTiedTo (h : store.Consistent) {post idea : Id}
    (hpost : store.HasPost discussion post) (hties : store.ThreadTiedTo post idea) :
    store.HasIdea discussion idea := by
  obtain ⟨-, pivot, hreplies, content, tie, hcontent, rfl, hnames, -⟩ := hties
  exact (h.hasIdea_iff_of_tie hcontent hnames).mpr (h.hasPost_of_replies hpost hreplies)

/-- What an idea can be reached from is in the discussion of the idea. -/
theorem Consistent.hasIdea_of_linked (h : store.Consistent) {upper lower : Id}
    (hpath : Relation.ReflTransGen store.Linked upper lower)
    (hlower : store.HasIdea discussion lower) : store.HasIdea discussion upper := by
  induction hpath using Relation.ReflTransGen.head_induction_on with
  | refl => exact hlower
  | head hfirst _ ih =>
    obtain ⟨link, row, hrow, hlive, rfl, rfl⟩ := hfirst
    exact (h.hasIdea_ends hrow hlive).mpr ih

namespace AgreeOn

variable (h : AgreeOn discussion before after)

include h

/-- The graph around an idea depends on the discussion of the idea alone. -/
theorem graphAround_eq (hroot : before.HasIdea discussion root) :
    after.graphAround root = before.graphAround root := by
  refine except_bind_congr (h.findLiveIdea_eq hroot) fun found hfound => ?_
  cases found with
  | none => rfl
  | some found =>
    dsimp only
    rw [(hroot.of_findLiveIdea hfound).2, h.graph_eq]

/-- Visitors that do the same on the ideas of a discussion are led through the same walk. -/
theorem visit_eq {σ ρ : Type} {visitor other : Visitor (Journaled σ) ρ}
    (hroot : before.HasIdea discussion root)
    (hsame : ∀ idea : Idea, before.HasIdea discussion idea.id → idea.discussion = discussion →
      other.visit idea = visitor.visit idea ∧ other.finish idea = visitor.finish idea)
    (order : WalkOrder) (state : σ) :
    after.visit root order other state = before.visit root order visitor state := by
  unfold visit
  rw [h.graphAround_eq hroot]
  cases haround : before.graphAround root with
  | error e => rfl
  | ok around =>
    cases around with
    | none => rfl
    | some graph =>
      have hgraph := graph_of_graphAround hroot haround
      have hfollows : other.Follows graph id visitor := by
        constructor
        · intro node level above t
          obtain ⟨hhere, hdiscussion⟩ := hasIdea_of_graph hgraph (List.get_mem _ node)
          rw [(hsame (graph.idea node) hhere hdiscussion).1]
          rfl
        · intro node level own below t
          obtain ⟨hhere, hdiscussion⟩ := hasIdea_of_graph hgraph (List.get_mem _ node)
          rw [(hsame (graph.idea node) hhere hdiscussion).2]
          rfl
      have hwalk : graph.walk order other root = graph.walk order visitor root := by
        funext t
        exact Graph.walk_follows hfollows order root t
      simp only [hwalk]

end AgreeOn

end Store

namespace Aggregator

open Store

/-- The aggregator with the same settings that asks another store. -/
def withStore (aggregator : Aggregator) (store : Store) : Aggregator := { aggregator with store }

variable (aggregator : Aggregator) {after : Store} {discussion idea post : Id}
  (h : AgreeOn discussion aggregator.store after)

include h

theorem subtree_withStore (hidea : aggregator.store.HasIdea discussion idea) :
    (aggregator.withStore after).subtree idea = aggregator.subtree idea :=
  h.descendants_eq aggregator.strategy hidea true

/-- Counts below an idea are the same in another store with the same discussion. -/
theorem counts_withStore (hidea : aggregator.store.HasIdea discussion idea) (user : Option Id) :
    (aggregator.withStore after).counts idea user = aggregator.counts idea user := by
  refine Traced.bind_congr (congrArg read (h.findLiveIdea_eq hidea)) fun found hfound => ?_
  cases found with
  | none => rfl
  | some found =>
    obtain ⟨hid, hdiscussion⟩ := hidea.of_findLiveIdea hfound
    refine Traced.bind_congr (aggregator.subtree_withStore h (hid ▸ hidea)) fun ideas _ => ?_
    simp only [withStore, hdiscussion, h.relatedCounts_eq, h.postCount_eq]

/-! ## Posts below an idea -/

theorem relatedPosts_withStore (hidea : aggregator.store.HasIdea discussion idea) :
    (aggregator.withStore after).relatedPosts discussion idea =
      aggregator.relatedPosts discussion idea := by
  refine congrArg (Traced.within _)
    (Traced.bind_congr (aggregator.subtree_withStore h hidea) fun ideas _ => ?_)
  simp only [withStore, h.relatedPosts_eq]

theorem postCount_withStore (hidea : aggregator.store.HasIdea discussion idea) :
    (aggregator.withStore after).postCount idea = aggregator.postCount idea := by
  unfold postCount
  rw [aggregator.counts_withStore h hidea]

theorem postCounts_withStore (hidea : aggregator.store.HasIdea discussion idea) (user : Option Id) :
    (aggregator.withStore after).postCounts idea user = aggregator.postCounts idea user := by
  unfold postCounts
  rw [aggregator.counts_withStore h hidea]

theorem readBelow_withStore (hidea : aggregator.store.HasIdea discussion idea) (user : Option Id) :
    (aggregator.withStore after).readBelow idea user = aggregator.readBelow idea user := by
  cases user with
  | none => rfl
  | some user =>
    exact Traced.bind_congr (aggregator.counts_withStore h hidea (some user)) fun _ _ => rfl

theorem readCount_withStore (hidea : aggregator.store.HasIdea discussion idea) (user : Option Id) :
    (aggregator.withStore after).readCount idea user = aggregator.readCount idea user := by
  unfold readCount
  rw [aggregator.readBelow_withStore h hidea]

/-! ## The discussion as a whole -/

theorem orphans_withStore :
    (aggregator.withStore after).orphans discussion = aggregator.orphans discussion := by
  unfold orphans withStore
  rw [h.orphans_eq]

theorem orphanCount_withStore :
    (aggregator.withStore after).orphanCount discussion = aggregator.orphanCount discussion := by
  unfold orphanCount
  rw [aggregator.orphans_withStore h]

theorem synthesisCount_withStore :
    (aggregator.withStore after).synthesisCount discussion =
      aggregator.synthesisCount discussion := by
  unfold synthesisCount withStore
  rw [h.synthesisCount_eq]

/-! ## Contributors -/

theorem contributors_withStore (hidea : aggregator.store.HasIdea discussion idea) :
    (aggregator.withStore after).contributors idea = aggregator.contributors idea := by
  refine congrArg (Traced.within _) (Traced.bind_congr (congrArg read (h.findLiveIdea_eq hidea)) ?_)
  intro found hfound
  cases found with
  | none => rfl
  | some found =>
    obtain ⟨hid, hdiscussion⟩ := hidea.of_findLiveIdea hfound
    refine Traced.bind_congr (aggregator.subtree_withStore h (hid ▸ hidea)) fun ideas _ => ?_
    simp only [withStore, hdiscussion, h.contributions_eq]

theorem synthesisContributors_withStore (hidea : aggregator.store.HasIdea discussion idea) :
    (aggregator.withStore after).synthesisContributors idea =
      aggregator.synthesisContributors idea := by
  refine congrArg (Traced.within _) (Traced.bind_congr (congrArg read (h.findLiveIdea_eq hidea)) ?_)
  intro found _
  cases found with
  | none => rfl
  | some found =>
    refine Traced.bind_congr (aggregator.subtree_withStore h hidea) fun ideas hideas => ?_
    have hhere := h.consistent.hasIdea_of_descendants aggregator.strategy hidea hideas
    simp only [withStore, h.extractContributions_eq hhere]

/-! ## Ideas that show a post -/

theorem ancestorsOfEach_withStore {ideas : List Id}
    (hideas : ∀ idea ∈ ideas, aggregator.store.HasIdea discussion idea) :
    (aggregator.withStore after).ancestorsOfEach ideas = aggregator.ancestorsOfEach ideas := by
  refine ancestorsOfEach_congr fun idea hidea => h.ancestors_eq aggregator.strategy ?_ true
  intro other hother
  exact List.mem_singleton.mp hother ▸ hideas idea hidea

section

variable (hlegible : aggregator.store.Legible) (hthreaded : Threaded aggregator.store.posts)
  (hrange : aggregator.store.PostsInRange) (hpost : aggregator.store.HasPost discussion post)

include hlegible hthreaded hrange hpost

/-- The ideas that a thread is tied to are in the discussion of the post. -/
theorem hasIdea_of_ideasOfThread {ideas : List Id}
    (hideas : aggregator.store.ideasOfThread post = .ok ideas) :
    ∀ idea ∈ ideas, aggregator.store.HasIdea discussion idea := by
  obtain ⟨row, hrow, hhere⟩ := hpost
  obtain ⟨found, hfound, hmem⟩ := ideasOfThread_result hlegible hthreaded hrange hrow
  cases hideas.symm.trans hfound
  exact fun idea hidea => h.consistent.hasIdea_of_threadTiedTo ⟨row, hrow, hhere⟩
    ((hmem idea).mp hidea)

theorem showing_withStore :
    (aggregator.withStore after).showing post = aggregator.showing post := by
  refine Traced.bind_congr (congrArg read (h.ideasOfThread_eq hthreaded hrange hpost))
    fun tied htied => ?_
  have hties := aggregator.hasIdea_of_ideasOfThread h hlegible hthreaded hrange hpost htied
  have heach := aggregator.ancestorsOfEach_withStore h hties
  have hmany := h.ancestors_eq aggregator.strategy hties true
  dsimp only [withStore] at heach ⊢
  rw [hmany, heach]
  rfl

theorem hasIdea_of_showing {ideas : List Id}
    (hideas : (aggregator.showing post).result = .ok ideas) :
    ∀ idea ∈ ideas, aggregator.store.HasIdea discussion idea := by
  obtain ⟨row, hrow, hhere⟩ := hpost
  obtain ⟨found, hfound, hmem⟩ := ideasShowing_result h.consistent hlegible hthreaded hrange hrow
  cases hideas.symm.trans hfound
  intro idea hidea
  obtain ⟨tied, hties, hpath⟩ := (hmem idea).mp hidea
  exact h.consistent.hasIdea_of_linked hpath
    (h.consistent.hasIdea_of_threadTiedTo ⟨row, hrow, hhere⟩ hties)

theorem ideasShowing_withStore :
    (aggregator.withStore after).ideasShowing post = aggregator.ideasShowing post := by
  unfold ideasShowing
  rw [aggregator.showing_withStore h hlegible hthreaded hrange hpost]

end

theorem readCounts_withStore {ideas : List Id}
    (hideas : ∀ idea ∈ ideas, aggregator.store.HasIdea discussion idea) (user : Option Id) :
    (aggregator.withStore after).readCounts user ideas = aggregator.readCounts user ideas := by
  induction ideas with
  | nil => rfl
  | cons idea rest ih =>
    have hrest := ih fun other hother => hideas other (List.mem_cons_of_mem idea hother)
    refine Traced.bind_congr
      (aggregator.readBelow_withStore h (hideas idea List.mem_cons_self) user) fun count _ => ?_
    rw [hrest]

/-- Counts for every idea that shows a post depend on its discussion alone. -/
theorem readCountsOf_withStore (hlegible : aggregator.store.Legible)
    (hthreaded : Threaded aggregator.store.posts) (hrange : aggregator.store.PostsInRange)
    (hpost : aggregator.store.HasPost discussion post) (user : Option Id) :
    (aggregator.withStore after).readCountsOf post user = aggregator.readCountsOf post user := by
  have hshowing := aggregator.showing_withStore h hlegible hthreaded hrange hpost
  refine congrArg (Traced.within _) (Traced.bind_congr hshowing fun ideas hideas => ?_)
  exact aggregator.readCounts_withStore h
    (aggregator.hasIdea_of_showing h hlegible hthreaded hrange hpost hideas) user

/-! ## Words -/

theorem definitionPreview_withStore (hidea : aggregator.store.HasIdea discussion idea) :
    (aggregator.withStore after).definitionPreview idea = aggregator.definitionPreview idea :=
  Traced.bind_congr (congrArg read (h.findLiveIdea_eq hidea)) fun _ _ => rfl

theorem textPosts_withStore {found : Idea} (hidea : aggregator.store.HasIdea discussion found.id)
    (hdiscussion : found.discussion = discussion) :
    (aggregator.withStore after).textPosts found = aggregator.textPosts found := by
  refine Traced.bind_congr (aggregator.subtree_withStore h hidea) fun ideas _ => ?_
  have hrelated : ∀ post ∈ aggregator.store.relatedPosts discussion ideas,
      aggregator.store.HasPost discussion post := fun _ => hasPost_of_mem_relatedPosts
  have hposts := h.findPosts_eq hrelated
  simp only [withStore, hdiscussion, h.relatedPosts_eq, hposts]

/-- The words below an idea are the same in another store with the same discussion, and so is the
walk that counts them. -/
theorem wordWeights_withStore (hidea : aggregator.store.HasIdea discussion idea)
    (locales : List String) (order : WalkOrder) :
    (aggregator.withStore after).wordWeights idea locales order =
      aggregator.wordWeights idea locales order := by
  have hvisitors : ∀ found : Idea, aggregator.store.HasIdea discussion found.id →
      found.discussion = discussion →
      (aggregator.withStore after).wordVisitor.visit found = aggregator.wordVisitor.visit found ∧
        (aggregator.withStore after).wordVisitor.finish found =
          aggregator.wordVisitor.finish found := by
    intro found hfound hdiscussion
    refine ⟨?_, rfl⟩
    funext level above
    simp only [wordVisitor, aggregator.textPosts_withStore h hfound hdiscussion]
    rfl
  have hwalk := h.visit_eq hidea hvisitors order
    { locales, leastLength := aggregator.settings.leastWordLength }
  unfold wordWeights
  exact congrArg (fun walked => walked.1 >>= fun _ => pure walked.2) hwalk

theorem mostCommonWords_withStore (hidea : aggregator.store.HasIdea discussion idea)
    (language : Option String) (count : Option Nat) :
    (aggregator.withStore after).mostCommonWords idea language count =
      aggregator.mostCommonWords idea language count := by
  refine congrArg (Traced.within _) (Traced.bind_congr (congrArg read (h.findLiveIdea_eq hidea)) ?_)
  intro found hfound
  cases found with
  | none => rfl
  | some found =>
    obtain ⟨hid, hdiscussion⟩ := hidea.of_findLiveIdea hfound
    have hlocales : (aggregator.withStore after).localesOf found.discussion =
        aggregator.localesOf found.discussion := by
      unfold localesOf withStore
      rw [hdiscussion, h.findDiscussion_eq]
    have hhere : aggregator.store.HasIdea discussion found.id := hid ▸ hidea
    simp only [hlocales, aggregator.wordWeights_withStore h hhere]
    rfl

end Aggregator

end Deliberation
