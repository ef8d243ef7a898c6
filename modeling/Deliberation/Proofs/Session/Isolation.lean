import Deliberation.Proofs.Aggregation.Answers
import Deliberation.Proofs.Session.Elsewhere
import Deliberation.Session.Question

/-!
Discussions do not know of each other. What can be asked about one of them is answered as before
after a request for another one, whether or not the request was carried out.
-/

namespace Deliberation

open Store

/-- A question is about a discussion: it names the discussion, or something that belongs to it.
Where it has a list of ideas beside the discussion, these may be any. -/
inductive Question.IsAbout (store : Store) (discussion : Id) : {α : Type} → Question α → Prop where
  | discussion : IsAbout store discussion (.discussion discussion)
  | idea {id : Id} (hid : store.HasIdea discussion id) : IsAbout store discussion (.idea id)
  | link {id : Id} {row : LinkRow} (hrow : store.links.get? id = some row)
      (hsource : store.HasIdea discussion row.source) : IsAbout store discussion (.link id)
  | post {id : Id} (hid : store.HasPost discussion id) : IsAbout store discussion (.post id)
  | posts {ids : List Id} (hids : ∀ id ∈ ids, store.HasPost discussion id) :
      IsAbout store discussion (.posts ids)
  | rootIdea : IsAbout store discussion (.rootIdea discussion)
  | discussionIdeas : IsAbout store discussion (.discussionIdeas discussion)
  | discussionLinks : IsAbout store discussion (.discussionLinks discussion)
  | firstParentLink {idea : Id} (hidea : store.HasIdea discussion idea) :
      IsAbout store discussion (.firstParentLink idea)
  | childCount {idea : Id} (hidea : store.HasIdea discussion idea) : IsAbout store discussion
      (.childCount idea)
  | children {idea : Id} (hidea : store.HasIdea discussion idea) : IsAbout store discussion
      (.children idea)
  | parents {idea : Id} (hidea : store.HasIdea discussion idea) : IsAbout store discussion
      (.parents idea)
  | siblings {idea : Id} (hidea : store.HasIdea discussion idea) : IsAbout store discussion
      (.siblings idea)
  | neighbors {ideas : List Id} {direction : Direction}
      (hideas : ∀ idea ∈ ideas, store.HasIdea discussion idea) :
      IsAbout store discussion (.neighbors ideas direction)
  | closure {root : Id} {direction : Direction} {inclusive : Bool}
      (hroot : store.HasIdea discussion root) :
      IsAbout store discussion (.closure root direction inclusive)
  | descendants {strategy : ClosureStrategy} {root : Id} {inclusive : Bool}
      (hroot : store.HasIdea discussion root) :
      IsAbout store discussion (.descendants strategy root inclusive)
  | ancestors {strategy : ClosureStrategy} {targets : List Id} {inclusive : Bool}
      (htargets : ∀ target ∈ targets, store.HasIdea discussion target) :
      IsAbout store discussion (.ancestors strategy targets inclusive)
  | visit {σ ρ : Type} {root : Id} {order : WalkOrder} {visitor : Visitor (Journaled σ) ρ}
      {state : σ}
      (hroot : store.HasIdea discussion root) :
        IsAbout store discussion (.visit root order visitor state)
  | postCount : IsAbout store discussion (.postCount discussion)
  | ideasOfThread {post : Id} (hpost : store.HasPost discussion post) :
      IsAbout store discussion (.ideasOfThread post)
  | relatedPosts {ideas : List Id} : IsAbout store discussion (.relatedPosts discussion ideas)
  | relatedCounts {ideas : List Id} {user : Option Id} :
      IsAbout store discussion (.relatedCounts discussion ideas user)
  | contributions {ideas : List Id} : IsAbout store discussion (.contributions discussion ideas)
  | extractContributions {ideas : List Id}
      (hideas : ∀ idea ∈ ideas, store.HasIdea discussion idea) :
      IsAbout store discussion (.extractContributions ideas)
  | postsBelow {config : Config} {idea : Id} (hidea : store.HasIdea discussion idea) :
      IsAbout store discussion (.postsBelow config discussion idea)
  | postCountBelow {config : Config} {idea : Id} (hidea : store.HasIdea discussion idea) :
      IsAbout store discussion (.postCountBelow config idea)
  | readCountBelow {config : Config} {idea : Id} {user : Option Id}
      (hidea : store.HasIdea discussion idea) :
      IsAbout store discussion (.readCountBelow config idea user)
  | postCountsBelow {config : Config} {idea : Id} {user : Option Id}
      (hidea : store.HasIdea discussion idea) :
      IsAbout store discussion (.postCountsBelow config idea user)
  | orphans {config : Config} : IsAbout store discussion (.orphans config discussion)
  | orphanCount {config : Config} : IsAbout store discussion (.orphanCount config discussion)
  | synthesisCount {config : Config} : IsAbout store discussion (.synthesisCount config discussion)
  | contributors {config : Config} {idea : Id} (hidea : store.HasIdea discussion idea) :
      IsAbout store discussion (.contributors config idea)
  | synthesisContributors {config : Config} {idea : Id} (hidea : store.HasIdea discussion idea) :
      IsAbout store discussion (.synthesisContributors config idea)
  | ideasShowing {config : Config} {post : Id} (hpost : store.HasPost discussion post) :
      IsAbout store discussion (.ideasShowing config post)
  | readCountsOf {config : Config} {post : Id} {user : Option Id}
      (hpost : store.HasPost discussion post) :
      IsAbout store discussion (.readCountsOf config post user)
  | definitionPreview {config : Config} {idea : Id} (hidea : store.HasIdea discussion idea) :
      IsAbout store discussion (.definitionPreview config idea)
  | mostCommonWords {config : Config} {idea : Id} {language : Option String} {count : Option Nat}
      (hidea : store.HasIdea discussion idea) :
      IsAbout store discussion (.mostCommonWords config idea language count)
  | wordWeights {config : Config} {idea : Id} {locales : List String} {order : WalkOrder}
      (hidea : store.HasIdea discussion idea) :
      IsAbout store discussion (.wordWeights config idea locales order)

/-- Two stores that agree on a discussion answer all questions about it alike, and log the same
while they do. -/
theorem Store.AgreeOn.answer_eq {before after : Store} {discussion : Id}
    (h : AgreeOn discussion before after) (hlegible : before.Legible)
    (hthreaded : Threaded before.posts) (hrange : before.PostsInRange) {α : Type}
    {question : Question α} (habout : question.IsAbout before discussion) :
    question.answer after = question.answer before := by
  cases habout with
  | discussion => exact congrArg Traced.ofExcept h.findDiscussion_eq
  | idea hid => exact congrArg Traced.ofExcept (h.findIdea_eq hid)
  | link hrow hsource => exact congrArg Traced.ofExcept (h.findLink_eq hrow hsource)
  | post hid => exact congrArg Traced.ofExcept (h.findPost_eq hid)
  | posts hids => exact congrArg Traced.ofExcept (h.findPosts_eq hids)
  | rootIdea => exact congrArg Traced.ofExcept h.findRoot_eq
  | discussionIdeas => exact congrArg Traced.ofExcept h.discussionIdeas_eq
  | discussionLinks => exact congrArg Traced.ofExcept h.discussionLinks_eq
  | firstParentLink hidea => exact congrArg Traced.ofExcept (h.firstParentLink_eq hidea)
  | childCount hidea => exact congrArg pure (h.childCount_eq hidea)
  | children hidea => exact congrArg Traced.ofExcept (h.children_eq hidea)
  | parents hidea => exact congrArg Traced.ofExcept (h.parents_eq hidea)
  | siblings hidea => exact congrArg Traced.ofExcept (h.siblings_eq hidea)
  | neighbors hideas => exact congrArg pure (h.neighbors_eq hideas _)
  | closure hroot => exact h.closure_eq hroot
  | descendants hroot => exact h.descendants_eq _ hroot _
  | ancestors htargets => exact h.ancestors_eq _ htargets _
  | visit hroot =>
    dsimp only [Question.visit]
    rw [h.visit_eq hroot fun _ _ _ => ⟨rfl, rfl⟩]
  | postCount => exact congrArg pure h.postCount_eq
  | ideasOfThread hpost =>
    exact congrArg Traced.ofExcept (h.ideasOfThread_eq hthreaded hrange hpost)
  | relatedPosts => exact congrArg pure (h.relatedPosts_eq _)
  | relatedCounts => exact congrArg pure (h.relatedCounts_eq _ _)
  | contributions => exact congrArg pure (h.contributions_eq _)
  | extractContributions hideas => exact congrArg pure (h.extractContributions_eq hideas)
  | postsBelow hidea => exact Aggregator.relatedPosts_withStore ⟨before, _, _⟩ h hidea
  | postCountBelow hidea => exact Aggregator.postCount_withStore ⟨before, _, _⟩ h hidea
  | readCountBelow hidea => exact Aggregator.readCount_withStore ⟨before, _, _⟩ h hidea _
  | postCountsBelow hidea => exact Aggregator.postCounts_withStore ⟨before, _, _⟩ h hidea _
  | orphans => exact Aggregator.orphans_withStore ⟨before, _, _⟩ h
  | orphanCount => exact Aggregator.orphanCount_withStore ⟨before, _, _⟩ h
  | synthesisCount => exact Aggregator.synthesisCount_withStore ⟨before, _, _⟩ h
  | contributors hidea => exact Aggregator.contributors_withStore ⟨before, _, _⟩ h hidea
  | synthesisContributors hidea =>
    exact Aggregator.synthesisContributors_withStore ⟨before, _, _⟩ h hidea
  | ideasShowing hpost =>
    exact Aggregator.ideasShowing_withStore ⟨before, _, _⟩ h hlegible hthreaded hrange hpost
  | readCountsOf hpost =>
    exact Aggregator.readCountsOf_withStore ⟨before, _, _⟩ h hlegible hthreaded hrange hpost _
  | definitionPreview hidea =>
    exact Aggregator.definitionPreview_withStore ⟨before, _, _⟩ h hidea
  | mostCommonWords hidea =>
    exact Aggregator.mostCommonWords_withStore ⟨before, _, _⟩ h hidea _ _
  | wordWeights hidea =>
    exact Aggregator.wordWeights_withStore ⟨before, _, _⟩ h hidea _ _

namespace Session

theorem medium_perform (now : Timestamp) (request : Request) (session : Session) :
    (perform now request session).2.medium = session.medium := by
  unfold perform
  split
  · rfl
  · rfl

theorem medium_carryOut (history : History) (session : Session) :
    (carryOut history session).medium = session.medium := by
  induction history generalizing session with
  | nil => rfl
  | cons entry rest ih => exact (ih _).trans (medium_perform _ _ session)

/-- What is answered to a question depends on how the database is opened and on what the question
makes of the store. -/
theorem ask_congr {α : Type} {question : Question α} {session other : Session}
    (hmedium : other.medium = session.medium)
    (hanswer : question.answer other.store = question.answer session.store) :
    (ask question other).1 = (ask question session).1 := by
  unfold ask
  rw [hmedium]
  split
  · rfl
  · exact congrArg Traced.result hanswer

/-- After any history, further requests that keep away from a discussion make no difference to what
is answered about it, and to what is logged on the way there. -/
theorem answers_of_keepsAway (medium : Medium) (watcher : Watcher) (history later : History)
    {there : Id}
    (hthere : ∃ home, (storeAfter medium watcher history).discussions.get? there = some home)
    (haway : KeepsAway there later (carryOut history (start medium watcher))) {α : Type}
    {question : Question α} (habout : question.IsAbout (storeAfter medium watcher history) there) :
    let before := carryOut history (start medium watcher)
    let after := carryOut later before
    question.answer after.store = question.answer before.store ∧
      (ask question after).1 = (ask question before).1 := by
  intro before after
  have hsame : SameWithin there before.store after.store :=
    carryOut_sameWithin later (storeAfter_sound medium watcher history) hthere haway
  have hafter : after.store = storeAfter medium watcher (history ++ later) := by
    rw [storeAfter, carryOut_append]
  have hagree : AgreeOn there before.store after.store :=
    ⟨hsame, storeAfter_consistent medium watcher history,
      hafter ▸ storeAfter_consistent medium watcher (history ++ later)⟩
  have hanswer := hagree.answer_eq (storeAfter_legible medium watcher history)
    (storeAfter_threaded medium watcher history)
    (fun _ _ hrow => storeAfter_inRange medium watcher history hrow) habout
  exact ⟨hanswer, ask_congr (medium_carryOut later before) hanswer⟩

/-- After any history, a request for one discussion, or for a new one, makes no difference to what
is answered about another discussion, and to what is logged on the way there. It does not matter
whether the request is carried out or fails. -/
theorem storeAfter_isolates_discussions (medium : Medium) (watcher : Watcher) (history : History)
    (now : Timestamp) (request : Request) {here there : Id} (hapart : here ≠ there)
    (hthere : ∃ home, (storeAfter medium watcher history).discussions.get? there = some home)
    (hrequest : request.IsFor (storeAfter medium watcher history) here ∨ request.OpensDiscussion) :
    let before := carryOut history (start medium watcher)
    let after := (perform now request before).2
    ∀ {α : Type} (question : Question α), question.IsAbout before.store there →
      question.answer after.store = question.answer before.store ∧
        (ask question after).1 = (ask question before).1 := by
  intro before after α question habout
  have haway : KeepsAway there [(now, request)] before :=
    ⟨hrequest.imp_left fun hfor => ⟨here, hapart, hfor⟩, trivial⟩
  exact answers_of_keepsAway medium watcher history [(now, request)] hthere haway habout

/-- Two discussions, each with an idea below its root. -/
def neighboring : History := [
  (⟨0, 0⟩, .createDiscussion { slug := "energy", topic := "Energy" }),
  (⟨1, 0⟩, .createDiscussion { slug := "water", topic := "Water" }),
  (⟨2, 0⟩, .createIdea { discussion := 1 }),
  (⟨3, 0⟩, .createIdea { discussion := 2 }),
  (⟨4, 0⟩, .createLink { source := 1, target := 3 }),
  (⟨5, 0⟩, .createLink { source := 2, target := 4 })]

/-- Deleting an idea of the first discussion leaves what is below the root of the second one. -/
theorem neighboring_deletion_unnoticed :
    ((carryOut neighboring (start .memory .nobody)).store.isLiveIdea 3) = true ∧
    ((perform ⟨6, 0⟩ (.tombstoneIdea 3)
      (carryOut neighboring (start .memory .nobody))).2.store.isLiveIdea 3) = false ∧
    (Question.descendants .fixedPoint 2 true).answer
        (perform ⟨6, 0⟩ (.tombstoneIdea 3) (carryOut neighboring (start .memory .nobody))).2.store =
      (Question.descendants .fixedPoint 2 true).answer
        (carryOut neighboring (start .memory .nobody)).store := by
  have hroot : (storeAfter .memory .nobody neighboring).HasIdea 2 2 := ⟨_, rfl, rfl⟩
  have hidea : (storeAfter .memory .nobody neighboring).HasIdea 1 3 := ⟨_, rfl, rfl⟩
  have hanswers := storeAfter_isolates_discussions .memory .nobody neighboring ⟨6, 0⟩
    (.tombstoneIdea 3)
    (by decide : (1 : Id) ≠ 2) ⟨_, rfl⟩ (Or.inl hidea) (Question.descendants .fixedPoint 2 true)
    (.descendants hroot)
  exact ⟨by decide +kernel, by decide +kernel, hanswers.1⟩

end Session

end Deliberation
