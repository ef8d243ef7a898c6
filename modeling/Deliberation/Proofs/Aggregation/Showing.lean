import Deliberation.Proofs.Aggregation.Related
import Deliberation.Proofs.Aggregation.Strategy
import Deliberation.Proofs.Session.Legible

/-!
Which ideas show a post. They are looked for from the other end: the ancestry of the post is read as
ids, the ideas tied to one of these posts are collected, and links are followed upward from there.
This is the same relation as the one between an idea and its related posts, except that hidden ideas
are not passed over.
-/

namespace Deliberation

namespace Store

variable {store : Store} {discussion post idea : Id}

/-- A post goes back to one that is tied to a live idea. -/
def ThreadTiedTo (store : Store) (post idea : Id) : Prop :=
  store.isLiveIdea idea ∧
    ∃ pivot, Relation.ReflTransGen (RepliesTo store.posts) post pivot ∧ store.TiedTo pivot idea

/-- None of the live ideas that a thread is tied to is hidden. -/
def TiesShown (store : Store) (post : Id) : Prop :=
  ∀ idea row, store.ThreadTiedTo post idea → store.ideas.get? idea = some row → row.hidden = false

def PostsInRange (store : Store) : Prop := ∀ id row, store.posts.get? id = some row → id.InRange

/-- Among the ties of some posts those to live ideas are told, whatever rows they stand in. -/
theorem mem_tiesOf_iff {thread : List Id} :
    idea ∈ (store.contents.rows.filter fun row => row.kind.isPositive &&
      thread.contains row.post).filterMap (fun row => row.idea.filter store.isLiveIdea) ↔
      store.isLiveIdea idea ∧ ∃ pivot ∈ thread, store.TiedTo pivot idea := by
  simp only [List.mem_filterMap, List.mem_filter, Bool.and_eq_true, isPositive_iff,
    List.contains_iff_mem, Option.filter_eq_some_iff, Table.mem_rows_iff]
  constructor
  · rintro ⟨row, ⟨⟨content, hcontent⟩, hpositive, hthread⟩, hnames, hlive⟩
    exact ⟨hlive, row.post, hthread, content, row, hcontent, rfl, hnames, hpositive⟩
  · rintro ⟨hlive, pivot, hthread, content, row, hcontent, rfl, hnames, hpositive⟩
    exact ⟨row, ⟨⟨content, hcontent⟩, hpositive, hthread⟩, hnames, hlive⟩

/-- The live ideas tied to a thread are found, although ancestries are but texts. -/
theorem ideasOfThread_result (hlegible : store.Legible) (hthreaded : Threaded store.posts)
    (hrange : store.PostsInRange) {row : PostRow} (hrow : store.posts.get? post = some row) :
    ∃ ideas, store.ideasOfThread post = .ok ideas ∧
      ∀ idea, idea ∈ ideas ↔ store.ThreadTiedTo post idea := by
  obtain ⟨found, hread⟩ := (hlegible.posts post row hrow).exists_read post
  obtain ⟨-, -, hid, -, -, -, hancestry, -⟩ := PostRow.read_eq_ok_iff.mp hread
  have hfound : store.findPost post = .ok (some found) := find_eq_ok_some_iff.mpr ⟨row, hrow, hread⟩
  unfold ideasOfThread
  rw [hfound]
  refine ⟨_, rfl, fun idea => ?_⟩
  rw [hid, hancestry, mem_ascending, mem_tiesOf_iff]
  simp only [hthreaded.mem_ids_iff hrange hrow]
  rfl

/-- A reply belongs to the discussion of every post that it goes back to. -/
theorem Consistent.discussion_of_replies (h : store.Consistent) {row : PostRow} {pivot : Id}
    (hrow : store.posts.get? post = some row)
    (hreplies : Relation.ReflTransGen (RepliesTo store.posts) post pivot) :
    ∃ above, store.posts.get? pivot = some above ∧ above.discussion = row.discussion := by
  induction hreplies with
  | refl => exact ⟨row, hrow, rfl⟩
  | tail _ hreply ih =>
    obtain ⟨reply, hget, hsame⟩ := ih
    obtain ⟨again, hagain, hparent⟩ := hreply
    obtain rfl := Option.some.inj (hget.symm.trans hagain)
    obtain ⟨-, above, habove, hhere⟩ := h.replies _ reply _ hget hparent
    exact ⟨above, habove, hhere.trans hsame⟩

/-- A live idea that a thread is tied to can be seen in the discussion of the thread, unless it is
hidden. -/
theorem Consistent.showsIdea_of_tied (h : store.Consistent) {row : PostRow} {ideaRow : IdeaRow}
    (hrow : store.posts.get? post = some row) (htied : store.ThreadTiedTo post idea)
    (hidea : store.ideas.get? idea = some ideaRow) (hshown : ideaRow.hidden = false) :
    store.ShowsIdea row.discussion idea := by
  obtain ⟨hlive, pivot, hreplies, id, content, hcontent, rfl, hnamed, -⟩ := htied
  obtain ⟨live, hliveRow, hrowLive⟩ := isLiveIdea_iff.mp hlive
  obtain rfl := Option.some.inj (hidea.symm.trans hliveRow)
  obtain ⟨named, tied, hnamedRow, htiedRow, hsame⟩ := h.ties id content idea hcontent hnamed
  obtain rfl := Option.some.inj (hidea.symm.trans hnamedRow)
  obtain ⟨above, habove, hhere⟩ := h.discussion_of_replies hrow hreplies
  obtain rfl := Option.some.inj (htiedRow.symm.trans habove)
  exact ⟨ideaRow, hidea, hrowLive, hshown, hsame.trans hhere⟩

end Store

namespace Aggregator

open Store

variable {aggregator other : Aggregator}

/-- Asking for the ancestors of several ideas asks for those of each. -/
theorem ancestorsOfEach_congr {ideas : List Id} (h : ∀ idea ∈ ideas,
      other.strategy.ancestors other.store [idea] true =
        aggregator.strategy.ancestors aggregator.store [idea] true) :
    other.ancestorsOfEach ideas = aggregator.ancestorsOfEach ideas := by
  induction ideas with
  | nil => rfl
  | cons idea rest ih =>
    have hrest := ih fun later hlater => h later (List.mem_cons_of_mem idea hlater)
    rw [ancestorsOfEach, ancestorsOfEach, h idea List.mem_cons_self, hrest]

/-- The ideas that show a post are those from which live links lead to a live idea that its thread
is tied to. -/
theorem ideasShowing_result (hconsistent : aggregator.store.Consistent)
    (hlegible : aggregator.store.Legible) (hthreaded : Threaded aggregator.store.posts)
    (hrange : aggregator.store.PostsInRange) {post : Id} {row : PostRow}
    (hrow : aggregator.store.posts.get? post = some row) :
    ∃ ideas, (aggregator.ideasShowing post).result = .ok ideas ∧
      ∀ idea, idea ∈ ideas ↔ ∃ tied, aggregator.store.ThreadTiedTo post tied ∧
        Relation.ReflTransGen aggregator.store.Linked idea tied := by
  obtain ⟨ties, hties, hmemTies⟩ := ideasOfThread_result hlegible hthreaded hrange hrow
  obtain ⟨ideas, hideas, hclosure⟩ := expansion_result aggregator.store .backward ties true
  have hshowing : (aggregator.showing post).result = .ok ideas := by
    rw [showing_result, hties]
    exact hideas
  refine ⟨ideas, hshowing, fun idea => ?_⟩
  simp only [← hmemTies]
  exact hconsistent.mem_closure_backward_iff hclosure

/-- What is related to an idea is shown by it. The converse needs that no hidden idea shows the
post. -/
theorem relatedPosts_iff_ideasShowing (hconsistent : aggregator.store.Consistent)
    (hlegible : aggregator.store.Legible) (hthreaded : Threaded aggregator.store.posts)
    (hrange : aggregator.store.PostsInRange) {discussion post : Id}
    (hpost : aggregator.store.ShowsPost discussion post) (idea : Id) :
    ∃ posts ideas, (aggregator.relatedPosts discussion idea).result = .ok posts ∧
      (aggregator.ideasShowing post).result = .ok ideas ∧ (post ∈ posts → idea ∈ ideas) ∧
      (aggregator.store.TiesShown post → idea ∈ ideas → post ∈ posts) := by
  obtain ⟨posts, hposts, -, hmemPosts⟩ := relatedPosts_result hconsistent hthreaded discussion idea
  obtain ⟨row, hrow, rfl, hseen⟩ := hpost
  obtain ⟨ideas, hideas, hmemIdeas⟩ :=
    ideasShowing_result hconsistent hlegible hthreaded hrange hrow
  refine ⟨posts, ideas, hposts, hideas, ?_, ?_⟩
  · intro hmem
    obtain ⟨tied, hpath, -, ⟨found, hfound, hlive, -⟩, hties⟩ := (hmemPosts post).mp hmem
    exact (hmemIdeas idea).mpr ⟨tied, ⟨isLiveIdea_iff.mpr ⟨found, hfound, hlive⟩, hties⟩, hpath⟩
  · intro hshown hmem
    obtain ⟨tied, hties, hpath⟩ := (hmemIdeas idea).mp hmem
    obtain ⟨found, hfound, -⟩ := isLiveIdea_iff.mp hties.1
    have hidea := hconsistent.showsIdea_of_tied hrow hties hfound (hshown tied found hties hfound)
    exact (hmemPosts post).mpr ⟨tied, hpath, ⟨row, hrow, rfl, hseen⟩, hidea, hties.2⟩

end Aggregator

namespace Session

open Store

/-- Whatever was asked of a new database before: under either strategy the ideas that show a post
are those from which live links lead to a live idea that the post, or one above it, is tied to. -/
theorem ideasShowing_after_history (medium : Medium) (watcher : Watcher) (history : History)
    (strategy : ClosureStrategy) (settings : Config.Analytics) {post : Id} {row : PostRow}
    (hrow : (storeAfter medium watcher history).posts.get? post = some row) :
    let store := storeAfter medium watcher history
    ∃ ideas, (Aggregator.ideasShowing ⟨store, strategy, settings⟩ post).result = .ok ideas ∧
      ∀ idea, idea ∈ ideas ↔
        ∃ tied, store.ThreadTiedTo post tied ∧ Relation.ReflTransGen store.Linked idea tied :=
  Aggregator.ideasShowing_result (storeAfter_consistent medium watcher history)
    (storeAfter_legible medium watcher history) (storeAfter_threaded medium watcher history)
    (fun _ _ => storeAfter_inRange medium watcher history) hrow

/-- Whatever was asked of a new database before, and under either strategy: if a post is related to
an idea, the idea shows the post. It is the other way round too, as long as none of the live ideas
that the post or one above it is tied to is hidden. -/
theorem related_iff_showing_after_history (medium : Medium) (watcher : Watcher) (history : History)
    (strategy : ClosureStrategy) (settings : Config.Analytics) {discussion post : Id}
    (hpost : (storeAfter medium watcher history).ShowsPost discussion post) (idea : Id) :
    let aggregator : Aggregator := ⟨storeAfter medium watcher history, strategy, settings⟩
    ∃ posts ideas, (aggregator.relatedPosts discussion idea).result = .ok posts ∧
      (aggregator.ideasShowing post).result = .ok ideas ∧ (post ∈ posts → idea ∈ ideas) ∧
      (aggregator.store.TiesShown post → idea ∈ ideas → post ∈ posts) :=
  Aggregator.relatedPosts_iff_ideasShowing (storeAfter_consistent medium watcher history)
    (storeAfter_legible medium watcher history) (storeAfter_threaded medium watcher history)
    (fun _ _ => storeAfter_inRange medium watcher history) hpost idea

/-- A post is tied to an idea below the root, and another post replies to it. -/
def discussed : History := [
  (⟨0, 0⟩, .createDiscussion { slug := "energy", topic := "Energy" }),
  (⟨1, 0⟩, .createIdea { discussion := 1 }),
  (⟨2, 0⟩, .createLink { source := 1, target := 2 }),
  (⟨3, 0⟩, .createPost { discussion := 1, creator := 7 }),
  (⟨4, 0⟩, .createPost { discussion := 1, creator := 8, parent := some 1 }),
  (⟨5, 0⟩, .linkContent { idea := some 2, post := 1, kind := .extract, creator := 7 })]

theorem discussed_tiesShown : (storeAfter .memory .nobody discussed).TiesShown 2 := by
  rintro idea row ⟨-, pivot, -, id, content, hcontent, -, hnamed, -⟩ hrow
  have hmem : content ∈ (storeAfter .memory .nobody discussed).contents.rows :=
    Table.mem_rows_iff.mpr ⟨id, hcontent⟩
  obtain rfl := List.mem_singleton.mp hmem
  cases hnamed
  cases hrow
  rfl

theorem discussed_reply_tied : (storeAfter .memory .nobody discussed).ThreadTiedTo 2 2 := by
  have hreplies : RepliesTo (storeAfter .memory .nobody discussed).posts 2 1 := ⟨_, rfl, rfl⟩
  exact ⟨rfl, 1, Relation.ReflTransGen.single hreplies, 1, _, rfl, rfl, rfl, Or.inr rfl⟩

/-- The reply is related to the root, and the root shows the reply. -/
theorem discussed_reply_related_and_shown : ∃ posts ideas,
    (Aggregator.relatedPosts ⟨storeAfter .memory .nobody discussed, .native, {}⟩ 1 1).result =
      .ok posts ∧
    (Aggregator.ideasShowing ⟨storeAfter .memory .nobody discussed, .native, {}⟩ 2).result =
      .ok ideas ∧ 2 ∈ posts ∧ 1 ∈ ideas := by
  have hreply : (storeAfter .memory .nobody discussed).ShowsPost 1 2 := ⟨_, rfl, rfl, rfl⟩
  have hlink : (storeAfter .memory .nobody discussed).Linked 1 2 := ⟨1, _, rfl, rfl, rfl, rfl⟩
  obtain ⟨posts, ideas, hposts, hideas, -, hconverse⟩ :=
    related_iff_showing_after_history .memory .nobody discussed .native {} hreply 1
  obtain ⟨row, hrow, -⟩ := hreply
  obtain ⟨others, hothers, hmem⟩ :=
    ideasShowing_after_history .memory .nobody discussed .native {} hrow
  obtain rfl := Except.ok.inj (hideas.symm.trans hothers)
  have hshown : 1 ∈ ideas :=
    (hmem 1).mpr ⟨2, discussed_reply_tied, Relation.ReflTransGen.single hlink⟩
  exact ⟨posts, ideas, hposts, hideas, hconverse discussed_tiesShown hshown, hshown⟩

end Session

end Deliberation
