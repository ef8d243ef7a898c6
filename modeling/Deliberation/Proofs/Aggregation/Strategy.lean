import Deliberation.Aggregation.Words
import Deliberation.Proofs.Closure.Resolver
import Deliberation.Proofs.Graph.Walk

/-!
Aggregation does not depend on how closures are found. One of the strategies refuses to look upward
from several ideas, so the ideas that show a post are found along different ways; they come to the
same list. All other questions look downward from one idea at a time. The journals of the two
strategies differ, so it is the results that are compared.
-/

namespace Deliberation

namespace Traced

variable {α β : Type}

structure Alike (x y : Traced α) : Prop where
  same : y.result = x.result
  fails : FailsOnly Store.IsFault x.result

namespace Alike

theorem of_failsOnly {x : Traced α} (h : FailsOnly Store.IsFault x.result) : Alike x x := ⟨rfl, h⟩

theorem ok (a : α) : Alike (pure a : Traced α) (pure a) := of_failsOnly (.ok a)

/-- Computations that come to the same may go on with what they have come to. -/
theorem bind {x y : Traced α} {next others : α → Traced β} (h : Alike x y)
    (hnext : ∀ a, Alike (next a) (others a)) : Alike (x >>= next) (y >>= others) where
  same := by
    rw [result_bind, result_bind, h.same]
    exact congrArg (x.result >>= ·) (funext fun a => (hnext a).same)
  fails := by
    rw [result_bind]
    exact h.fails.bind fun a => (hnext a).fails

theorem within {x y : Traced α} (h : Alike x y) (span : Span) :
    Alike (.within span x) (.within span y) :=
  ⟨h.same, h.fails⟩

end Alike

end Traced

/-! ## Walks without their journals -/

namespace Store

variable {σ ρ : Type} {store : Store}

/-- A walk through the discussion of an idea, with a visitor that keeps no journal. -/
def quietVisit (store : Store) (root : Id) (order : WalkOrder) (visitor : Visitor σ ρ) :
    Attempt σ (Option ρ) := do
  match ← Attempt.ofExcept (store.graphAround root) with
  | none => return none
  | some graph => graph.walk order visitor root

/-- A visitor that keeps a journal leads to the same result as one without a journal. -/
theorem visit_eq_quietVisit (store : Store) {visitor : Visitor (Journaled σ) ρ}
    {plain : Visitor σ ρ} (h : ∀ graph : Graph, visitor.Follows graph Journaled.state plain)
    (root : Id) (order : WalkOrder) (state : σ) :
    Prod.map Traced.result id (store.visit root order visitor state) =
      store.quietVisit root order plain state := by
  unfold Store.visit quietVisit
  change _ = Attempt.andThen (Attempt.ofExcept (store.graphAround root)) _ state
  unfold Attempt.andThen Attempt.ofExcept
  cases store.graphAround root with
  | error e => rfl
  | ok around =>
    cases around with
    | none => rfl
    | some graph => exact Graph.walk_follows (h graph) order root ⟨state, _⟩

theorem findLiveIdea_failsOnly (id : Id) : FailsOnly IsFault (store.findLiveIdea id) :=
  (answer_failsOnly _).bind fun _ => .ok _

theorem ideasOfThread_failsOnly (post : Id) : FailsOnly IsFault (store.ideasOfThread post) := by
  refine (answer_failsOnly _).bind fun found => ?_
  cases found with
  | none => exact .ok []
  | some found => exact .ok _

theorem graphAround_failsOnly (id : Id) : FailsOnly IsFault (store.graphAround id) := by
  refine (findLiveIdea_failsOnly id).bind fun found => ?_
  cases found with
  | none => exact .ok none
  | some found =>
    have hgraph : FailsOnly IsFault (store.graph found.discussion) :=
      (answer_failsOnly _).bind fun _ => (answer_failsOnly _).bind fun _ => .ok _
    exact hgraph.bind fun _ => .ok _

theorem quietVisit_failsOnly {visitor : Visitor σ ρ} (h : visitor.FailsOnly IsFault) (root : Id)
    (order : WalkOrder) : (store.quietVisit root order visitor).FailsOnly IsFault := by
  refine Attempt.FailsOnly.bind (fun _ => graphAround_failsOnly root) fun around => ?_
  cases around with
  | none => exact Attempt.failsOnly_pure IsFault none
  | some graph => exact Graph.walk_failsOnly h order root

end Store

namespace Attempt

variable {σ α : Type}

theorem quiet_follows (x : Attempt σ α) : Follows Journaled.state x.quiet x := by
  intro journaled
  unfold quiet
  rcases x journaled.state with ⟨result, state⟩
  rfl

theorem traced_follows (x : Traced α) :
    Follows (Journaled.state (σ := σ)) (Attempt.traced x) (Attempt.ofExcept x.result) :=
  fun _ => rfl

end Attempt

namespace Aggregator

open Store

open Words (Counter)

def withStrategy (aggregator : Aggregator) (strategy : ClosureStrategy) : Aggregator :=
  { aggregator with strategy }

theorem read_alike {α : Type} {x : Except Error α} (h : FailsOnly IsFault x) :
    (read x).Alike (read x) :=
  .of_failsOnly h

variable (aggregator : Aggregator) (strategy : ClosureStrategy)

/-! ## The ideas below an idea -/

theorem subtree_alike (idea : Id) :
    (aggregator.subtree idea).Alike ((aggregator.withStrategy strategy).subtree idea) := by
  obtain ⟨ideas, hideas, -⟩ := expansion_result aggregator.store .forward [idea] true
  have hown : (aggregator.subtree idea).result = .ok ideas :=
    (aggregator.strategy.descendants_result idea).trans hideas
  have hother : ((aggregator.withStrategy strategy).subtree idea).result = .ok ideas :=
    (strategy.descendants_result idea).trans hideas
  refine ⟨hother.trans hown.symm, ?_⟩
  rw [hown]
  exact .ok ideas

theorem counts_alike (id : Id) (user : Option Id) :
    (aggregator.counts id user).Alike ((aggregator.withStrategy strategy).counts id user) := by
  refine (read_alike (findLiveIdea_failsOnly id)).bind fun found => ?_
  cases found with
  | none => exact .ok _
  | some idea =>
    refine (aggregator.subtree_alike strategy idea.id).bind fun ideas => ?_
    split
    · exact .ok _
    · exact .ok _

theorem relatedPosts_alike (discussion idea : Id) :
    (aggregator.relatedPosts discussion idea).Alike
      ((aggregator.withStrategy strategy).relatedPosts discussion idea) :=
  ((aggregator.subtree_alike strategy idea).bind fun _ => .ok _).within _

theorem postCount_alike (idea : Id) :
    (aggregator.postCount idea).Alike ((aggregator.withStrategy strategy).postCount idea) :=
  ((aggregator.counts_alike strategy idea none).bind fun _ => .ok _).within _

theorem readBelow_alike (idea : Id) (user : Option Id) :
    (aggregator.readBelow idea user).Alike
      ((aggregator.withStrategy strategy).readBelow idea user) := by
  cases user with
  | none => exact .ok 0
  | some user => exact (aggregator.counts_alike strategy idea (some user)).bind fun _ => .ok _

theorem contributors_alike (id : Id) :
    (aggregator.contributors id).Alike ((aggregator.withStrategy strategy).contributors id) := by
  refine ((read_alike (findLiveIdea_failsOnly id)).bind fun found => ?_).within _
  cases found with
  | none => exact .ok []
  | some idea => exact (aggregator.subtree_alike strategy idea.id).bind fun _ => .ok _

theorem synthesisContributors_alike (id : Id) :
    (aggregator.synthesisContributors id).Alike
      ((aggregator.withStrategy strategy).synthesisContributors id) := by
  refine ((read_alike (findLiveIdea_failsOnly id)).bind fun found => ?_).within _
  cases found with
  | none => exact .ok []
  | some idea => exact (aggregator.subtree_alike strategy id).bind fun _ => .ok _

/-! ## The ideas that show a post -/

/-- Looking upward from one idea after another finds what is above any of them. -/
theorem ancestorsOfEach_result (ideas : List Id) :
    ∃ above, (aggregator.ancestorsOfEach ideas).result = .ok above ∧
      aggregator.store.IsClosureOf .backward ideas true (ascending above) := by
  suffices hmem : ∃ above, (aggregator.ancestorsOfEach ideas).result = .ok above ∧
    ∀ id, id ∈ above ↔
      ∃ idea ∈ ideas, aggregator.store.Reaches .backward idea id ∨ (true ∧ id = idea) by
    obtain ⟨above, habove, hmem⟩ := hmem
    exact ⟨above, habove, ascending_pairwise above, fun id => mem_ascending.trans (hmem id)⟩
  induction ideas with
  | nil => exact ⟨[], rfl, by simp⟩
  | cons idea rest ih =>
    obtain ⟨others, hothers, hmemOthers⟩ := ih
    obtain ⟨above, habove, -, hmem⟩ := expansion_result aggregator.store .backward [idea] true
    have hfirst : (aggregator.strategy.ancestors aggregator.store [idea] true).result = .ok above :=
      (aggregator.strategy.ancestors_singleton_result idea).trans habove
    refine ⟨above ++ others, ?_, fun id => ?_⟩
    · simp only [ancestorsOfEach, Traced.result_bind, hfirst, hothers]
      rfl
    · simp [hmem, hmemOthers]

/-- However closures are found, the ideas that show a post are the closure of those that its thread
is tied to. -/
theorem showing_result (post : Id) : (aggregator.showing post).result =
    aggregator.store.ideasOfThread post >>= fun tied =>
      (aggregator.store.expansion tied .backward true).result := by
  unfold showing
  rw [Traced.result_bind]
  refine congrArg (aggregator.store.ideasOfThread post >>= ·) (funext fun tied => ?_)
  obtain ⟨ideas, hideas, hclosure⟩ := expansion_result aggregator.store .backward tied true
  split
  · rename_i hempty
    rw [List.isEmpty_iff.mp hempty] at hideas hclosure ⊢
    have hnone : ideas = [] :=
      List.eq_nil_iff_forall_not_mem.mpr fun id hid => by simpa using (hclosure.2 id).mp hid
    rw [hideas, hnone]
    rfl
  · split
    · rename_i hmany
      exact ClosureStrategy.ancestors_result_of_many hmany
    · obtain ⟨above, habove, hsame⟩ := aggregator.ancestorsOfEach_result tied
      rw [Traced.result_bind, habove, hideas, ← hsame.eq hclosure]
      rfl

/-- The ideas that show a post are the same under both strategies, though one asks for them all at
once. -/
theorem showing_alike (post : Id) :
    (aggregator.showing post).Alike ((aggregator.withStrategy strategy).showing post) where
  same := (showing_result _ post).trans (aggregator.showing_result post).symm
  fails := by
    rw [showing_result]
    refine (ideasOfThread_failsOnly post).bind fun tied => ?_
    obtain ⟨ideas, hideas, -⟩ := expansion_result aggregator.store .backward tied true
    rw [hideas]
    exact .ok ideas

theorem readCounts_alike (user : Option Id) (ideas : List Id) :
    (aggregator.readCounts user ideas).Alike
      ((aggregator.withStrategy strategy).readCounts user ideas) := by
  induction ideas with
  | nil => exact .ok []
  | cons idea rest ih =>
    exact (aggregator.readBelow_alike strategy idea user).bind fun _ => ih.bind fun _ => .ok _

theorem readCountsOf_alike (post : Id) (user : Option Id) :
    (aggregator.readCountsOf post user).Alike
      ((aggregator.withStrategy strategy).readCountsOf post user) :=
  ((aggregator.showing_alike strategy post).bind
    (aggregator.readCounts_alike strategy user)).within _

/-! ## Words -/

theorem textPosts_alike (idea : Idea) :
    (aggregator.textPosts idea).Alike ((aggregator.withStrategy strategy).textPosts idea) :=
  (aggregator.subtree_alike strategy idea.id).bind fun _ =>
    (read_alike (answer_failsOnly _)).bind fun _ =>
    Traced.Alike.bind (.of_failsOnly (.ok ())) fun _ => .ok _

def plainWordVisitor (aggregator : Aggregator) : Visitor Counter Unit where
  visit idea level _ := do
    let weights := aggregator.settings.wordWeights
    Attempt.modify fun counter => counter.addIdea weights idea
    if level = 0 then
      let posts ← Attempt.ofExcept (aggregator.textPosts idea).result
      Attempt.modify fun counter => counter.addPosts weights [] posts
    return .proceed ()
  finish _ _ own _ := return own

/-- But for the journal the visitor of words does what the plain one does. -/
theorem wordVisitor_follows (graph : Graph) :
    aggregator.wordVisitor.Follows graph Journaled.state aggregator.plainWordVisitor where
  visit node level above := by
    refine (Attempt.quiet_follows _).bind fun _ => ?_
    by_cases hroot : level = 0
    · rw [if_pos hroot, if_pos hroot]
      refine (Attempt.traced_follows _).bind fun posts => ?_
      exact (Attempt.quiet_follows _).bind fun _ => .yield _ _
    · rw [if_neg hroot, if_neg hroot]
      exact .yield _ _
  finish node level own below := .yield _ own

theorem plainWordVisitor_withStrategy :
    (aggregator.withStrategy strategy).plainWordVisitor = aggregator.plainWordVisitor := by
  unfold plainWordVisitor
  simp only [(aggregator.textPosts_alike strategy _).same]
  rfl

theorem plainWordVisitor_failsOnly : aggregator.plainWordVisitor.FailsOnly IsFault where
  visit idea level above := by
    refine Attempt.FailsOnly.bind (fun _ => .ok ()) fun _ => ?_
    by_cases hroot : level = 0
    · rw [if_pos hroot]
      refine Attempt.FailsOnly.bind (fun _ => (aggregator.textPosts_alike .native idea).fails)
        fun posts => ?_
      exact Attempt.FailsOnly.bind (fun _ => .ok ()) fun _ => Attempt.failsOnly_pure _ _
    · rw [if_neg hroot]
      exact Attempt.failsOnly_pure _ _
  finish idea level own below := Attempt.failsOnly_pure _ own

/-- The words of an idea and what the walk for them comes to, journals apart. -/
theorem wordWeights_result (idea : Id) (locales : List String) (order : WalkOrder) :
    (aggregator.wordWeights idea locales order).result =
      let start : Counter := { locales, leastLength := aggregator.settings.leastWordLength }
      match aggregator.store.quietVisit idea order aggregator.plainWordVisitor start with
      | (walk, counted) => walk >>= fun _ => .ok counted := by
  let start : Counter := { locales, leastLength := aggregator.settings.leastWordLength }
  have hquiet := aggregator.store.visit_eq_quietVisit aggregator.wordVisitor_follows
    idea order start
  dsimp only
  rw [← hquiet]
  exact Traced.result_bind _ _

theorem wordWeights_alike (idea : Id) (locales : List String) (order : WalkOrder) :
    (aggregator.wordWeights idea locales order).Alike
      ((aggregator.withStrategy strategy).wordWeights idea locales order) where
  same := by
    rw [wordWeights_result, wordWeights_result, plainWordVisitor_withStrategy]
    rfl
  fails := by
    rw [wordWeights_result]
    exact FailsOnly.bind (quietVisit_failsOnly aggregator.plainWordVisitor_failsOnly idea order _)
      fun _ => .ok _

theorem localesOf_failsOnly (discussion : Id) :
    FailsOnly IsFault (aggregator.localesOf discussion) := by
  refine (answer_failsOnly _).bind fun found => ?_
  cases found with
  | none => exact .ok _
  | some found => exact .ok _

theorem mostCommonWords_alike (id : Id) (language : Option String) (count : Option Nat) :
    (aggregator.mostCommonWords id language count).Alike
      ((aggregator.withStrategy strategy).mostCommonWords id language count) := by
  refine ((read_alike (findLiveIdea_failsOnly id)).bind fun found => ?_).within _
  cases found with
  | none => exact .ok []
  | some idea =>
    have hbest (locales : List String) :=
      (aggregator.wordWeights_alike strategy idea.id locales .depthFirst).bind fun counter =>
        Traced.Alike.ok (counter.best (count.getD aggregator.settings.wordCount))
    cases language with
    | none => exact (read_alike (aggregator.localesOf_failsOnly idea.discussion)).bind hbest
    | some language => exact (Traced.Alike.ok [language]).bind hbest

/-! ## All questions -/

inductive Operation where
  | relatedPosts (discussion idea : Id)
  | postCount (idea : Id)
  | readCount (idea : Id) (user : Option Id)
  | postCounts (idea : Id) (user : Option Id)
  | orphans (discussion : Id)
  | orphanCount (discussion : Id)
  | synthesisCount (discussion : Id)
  | contributors (idea : Id)
  | synthesisContributors (idea : Id)
  | ideasShowing (post : Id)
  | readCountsOf (post : Id) (user : Option Id)
  | definitionPreview (idea : Id)
  | wordWeights (idea : Id) (locales : List String) (order : WalkOrder)
  | mostCommonWords (idea : Id) (language : Option String) (count : Option Nat)

namespace Operation

abbrev Answer : Operation → Type
  | relatedPosts .. | orphans .. | contributors .. | synthesisContributors .. | ideasShowing .. =>
    List Id
  | postCount .. | readCount .. | orphanCount .. | synthesisCount .. => Nat
  | postCounts .. => PostCounts
  | readCountsOf .. => List (Id × Nat)
  | definitionPreview .. => Option String
  | wordWeights .. => Counter
  | mostCommonWords .. => List String

def ask (aggregator : Aggregator) : (operation : Operation) → Traced operation.Answer
  | relatedPosts discussion idea => aggregator.relatedPosts discussion idea
  | postCount idea => aggregator.postCount idea
  | readCount idea user => aggregator.readCount idea user
  | postCounts idea user => aggregator.postCounts idea user
  | orphans discussion => aggregator.orphans discussion
  | orphanCount discussion => aggregator.orphanCount discussion
  | synthesisCount discussion => aggregator.synthesisCount discussion
  | contributors idea => aggregator.contributors idea
  | synthesisContributors idea => aggregator.synthesisContributors idea
  | ideasShowing post => aggregator.ideasShowing post
  | readCountsOf post user => aggregator.readCountsOf post user
  | definitionPreview idea => aggregator.definitionPreview idea
  | wordWeights idea locales order => aggregator.wordWeights idea locales order
  | mostCommonWords idea language count => aggregator.mostCommonWords idea language count

end Operation

/-- A strategy makes no difference to any answer, and nothing but the database can make one fail. -/
theorem ask_alike (operation : Operation) :
    (operation.ask aggregator).Alike (operation.ask (aggregator.withStrategy strategy)) := by
  cases operation with
  | relatedPosts discussion idea => exact aggregator.relatedPosts_alike strategy discussion idea
  | postCount idea => exact aggregator.postCount_alike strategy idea
  | readCount idea user => exact (aggregator.readBelow_alike strategy idea user).within _
  | postCounts idea user => exact (aggregator.counts_alike strategy idea user).within _
  | orphans discussion => exact (Traced.Alike.ok _).within _
  | orphanCount discussion => exact ((Traced.Alike.ok _).within _).bind fun _ => .ok _
  | synthesisCount discussion => exact (Traced.Alike.ok _).within _
  | contributors idea => exact aggregator.contributors_alike strategy idea
  | synthesisContributors idea => exact aggregator.synthesisContributors_alike strategy idea
  | ideasShowing post => exact (aggregator.showing_alike strategy post).within _
  | readCountsOf post user => exact aggregator.readCountsOf_alike strategy post user
  | definitionPreview idea => exact (read_alike (findLiveIdea_failsOnly idea)).bind fun _ => .ok _
  | wordWeights idea locales order => exact aggregator.wordWeights_alike strategy idea locales order
  | mostCommonWords idea language count =>
    exact aggregator.mostCommonWords_alike strategy idea language count

/-- Whatever is asked of whatever store, the answer is the same under both strategies. The one that
does not look upward from several ideas is never asked to. -/
theorem strategies_agree (store : Store) (settings : Config.Analytics) (operation : Operation) :
    (operation.ask ⟨store, .native, settings⟩).result =
      (operation.ask ⟨store, .fixedPoint, settings⟩).result ∧ ∀ refused reason,
        (operation.ask ⟨store, .native, settings⟩).result ≠
          .error (.unsupported refused reason) := by
  have halike := ask_alike ⟨store, .native, settings⟩ .fixedPoint operation
  refine ⟨halike.same.symm, fun refused reason hrefusal => ?_⟩
  obtain ⟨fault, hfault⟩ := halike.fails _ hrefusal
  cases hfault

end Aggregator

end Deliberation
