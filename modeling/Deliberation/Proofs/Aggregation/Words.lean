import Deliberation.Aggregation.Words
import Deliberation.Proofs.Aggregation.Related
import Deliberation.Proofs.Session.Walk
import Deliberation.Proofs.Words.Texts
import Mathlib.Data.List.Dedup

/-!
Which texts the words of an idea are counted in. A walk gives its counter the texts of each idea
that it visits, and at its first visit the texts of all related posts. As it visits each idea below
the first one once, it comes to the texts of these ideas and posts, in some order; a subject that
several posts share is among them once.
-/

namespace Deliberation

/-- A text with its weight, if it is there. -/
def weighted (text : Option String) (weight : Float) : List (String × Float) :=
  (text.map fun text => (text, weight)).toList

/-- The texts of an idea: its titles and its definition. -/
def Idea.texts (weights : Config.WordWeights) (idea : Idea) : List (String × Float) :=
  weighted idea.shortTitle weights.shortTitle ++ weighted idea.longTitle weights.longTitle ++
    weighted idea.definition weights.definition

theorem mem_of_mem_texts {weights : Config.WordWeights} {idea : Idea} {entry : String × Float}
    (h : entry ∈ idea.texts weights) :
    some entry.1 ∈ [idea.shortTitle, idea.longTitle, idea.definition] := by
  simp only [Idea.texts, weighted, List.mem_append, Option.mem_toList, Option.map_eq_some_iff] at h
  rcases h with (⟨text, htext, rfl⟩ | ⟨text, htext, rfl⟩) | ⟨text, htext, rfl⟩
  · simp [htext]
  · simp [htext]
  · simp [htext]

def Post.texts (weights : Config.WordWeights) (post : Post) : List (String × Float) :=
  weighted post.body weights.body

def cleanSubjects (posts : List Post) : List String :=
  (posts.filterMap fun post => post.subject.map Text.clean).filter (· ≠ "")

theorem mem_cleanSubjects_iff {posts : List Post} {subject : String} :
    subject ∈ cleanSubjects posts ↔
      subject ≠ "" ∧ ∃ post ∈ posts, post.subject.map Text.clean = some subject := by
  simp only [cleanSubjects, List.mem_filter, List.mem_filterMap, decide_eq_true_eq, and_comm]

/-- The texts of some ideas and posts, each subject once. -/
def textsOf (weights : Config.WordWeights) (ideas : List Idea) (posts : List Post) :
    List (String × Float) :=
  ideas.flatMap (Idea.texts weights) ++ posts.flatMap (Post.texts weights) ++
    (cleanSubjects posts).dedup.map fun subject => (subject, weights.subject)

theorem textsOf_perm {ideas others : List Idea} (h : ideas.Perm others)
    (weights : Config.WordWeights) (posts : List Post) :
    (textsOf weights ideas posts).Perm (textsOf weights others posts) :=
  ((h.flatMap_right _).append_right _).append_right _

namespace Words.Counter

variable {weights : Config.WordWeights} {seen : List String} {post : Post} {posts : List Post}
  {counter : Counter}

theorem addText?_eq (counter : Counter) (text : Option String) (weight : Float) :
    counter.addText? text weight = counter.addTexts (weighted text weight) := by
  cases text <;> rfl

theorem addIdea_eq (weights : Config.WordWeights) (counter : Counter) (idea : Idea) :
    counter.addIdea weights idea = counter.addTexts (idea.texts weights) := by
  simp only [addIdea, Idea.texts, addText?_eq, addTexts_append]

theorem foldl_addIdea (weights : Config.WordWeights) (counter : Counter) (ideas : List Idea) :
    ideas.foldl (addIdea weights) counter =
      counter.addTexts (ideas.flatMap (Idea.texts weights)) := by
  induction ideas generalizing counter with
  | nil => rfl
  | cons idea rest ih => rw [List.foldl_cons, ih, addIdea_eq, List.flatMap_cons, addTexts_append]

/-- A post without a new subject adds its body only. -/
theorem addPosts_cons_of_old
    (h : ∀ subject, post.subject.map Text.clean = some subject → subject = "" ∨ subject ∈ seen) :
    counter.addPosts weights seen (post :: posts) =
      (counter.addTexts (post.texts weights)).addPosts weights seen posts := by
  rw [addPosts, addText?_eq, Post.texts]
  rcases hsubject : post.subject.map Text.clean with _ | subject
  · rfl
  · have hold : subject.isEmpty ∨ subject ∈ seen := by
      simpa only [String.isEmpty_iff] using h subject hsubject
    exact if_pos hold

/-- A subject that has not been seen before is added with its post. -/
theorem addPosts_cons_of_new {subject : String}
    (hsubject : post.subject.map Text.clean = some subject) (hempty : subject ≠ "")
    (hnew : subject ∉ seen) :
    counter.addPosts weights seen (post :: posts) =
      (counter.addTexts (post.texts weights ++ [(subject, weights.subject)])).addPosts weights
      (subject :: seen) posts := by
  have hold : ¬ (subject.isEmpty ∨ subject ∈ seen) := by
    rw [String.isEmpty_iff, not_or]
    exact ⟨hempty, hnew⟩
  rw [addPosts, addText?_eq, addTexts_append, Post.texts, hsubject]
  exact if_neg hold

/-- Adding some posts adds their bodies, and each subject once that has not been counted before. -/
theorem exists_addPosts_eq (weights : Config.WordWeights) (seen : List String) (posts : List Post) :
    ∃ (subjects : List String) (texts : List (String × Float)), subjects.Nodup ∧
      (∀ subject, subject ∈ subjects ↔ subject ∈ cleanSubjects posts ∧ subject ∉ seen) ∧
      texts.Perm (posts.flatMap (Post.texts weights) ++ subjects.map fun subject =>
        (subject, weights.subject)) ∧
      ∀ counter : Counter, counter.addPosts weights seen posts = counter.addTexts texts := by
  induction posts generalizing seen with
  | nil =>
    exact ⟨[], [], List.nodup_nil, by simp [mem_cleanSubjects_iff], List.Perm.refl _, fun _ => rfl⟩
  | cons post rest ih =>
    by_cases hold : ∀ subject, post.subject.map Text.clean = some subject → subject = "" ∨
      subject ∈ seen
    · obtain ⟨subjects, texts, hnodup, hmem, hperm, hadd⟩ := ih seen
      refine ⟨subjects, post.texts weights ++ texts, hnodup, fun other => ?_, ?_, fun counter => ?_⟩
      · rw [hmem, mem_cleanSubjects_iff, mem_cleanSubjects_iff]
        grind
      · rw [List.flatMap_cons, List.append_assoc]
        exact hperm.append_left _
      · rw [addPosts_cons_of_old hold, hadd, addTexts_append]
    · push Not at hold
      obtain ⟨subject, hsubject, hempty, hnew⟩ := hold
      obtain ⟨subjects, texts, hnodup, hmem, hperm, hadd⟩ := ih (subject :: seen)
      refine ⟨subject :: subjects, post.texts weights ++ [(subject, weights.subject)] ++ texts, ?_,
        fun other => ?_, ?_, fun counter => ?_⟩
      · refine List.nodup_cons.mpr ⟨fun hagain => ?_, hnodup⟩
        exact ((hmem subject).mp hagain).2 List.mem_cons_self
      · rw [List.mem_cons, hmem, mem_cleanSubjects_iff, mem_cleanSubjects_iff]
        grind
      · rw [List.flatMap_cons, List.append_assoc, List.append_assoc, List.map_cons]
        refine List.Perm.append_left _ ((hperm.cons _).trans ?_)
        exact List.perm_middle.symm
      · rw [addPosts_cons_of_new hsubject hempty hnew, hadd, ← addTexts_append]

end Words.Counter

namespace Aggregator

open Store Words

variable {aggregator : Aggregator} {discussion root : Id}

/-- The posts that are counted for an idea are the related ones, as they are stored. -/
theorem textPosts_result (hlegible : aggregator.store.Legible)
    (hthreaded : Threaded aggregator.store.posts) (idea : Idea) :
    ∃ posts, (aggregator.textPosts idea).result = .ok posts ∧
      (aggregator.relatedPosts idea.discussion idea.id).result = .ok (posts.map (·.id)) ∧
      (posts.map (·.id)).Nodup ∧ ∀ post ∈ posts, aggregator.store.findPost post.id =
        .ok (some post) := by
  obtain ⟨ids, hsubtree, -⟩ := aggregator.subtree_result idea.id
  have hordered : (aggregator.store.relatedPosts idea.discussion ids).Pairwise (· < ·) :=
    ascending_pairwise _
  obtain ⟨posts, hposts, hids, hstored⟩ := hlegible.exists_findPosts hordered fun id hid => by
    obtain ⟨-, -, ⟨row, hrow, -⟩, -⟩ := (mem_relatedPosts_iff hthreaded).mp hid
    exact ⟨row, hrow⟩
  refine ⟨posts, ?_, ?_, ?_, hstored⟩
  · rw [textPosts, Traced.result_bind, hsubtree]
    change (Traced.ofExcept _ >>= _).result = _
    rw [Traced.result_bind, Traced.ofExcept, hposts]
    rfl
  · rw [hids]
    exact relatedPosts_of_subtree hsubtree idea.discussion
  · rw [hids]
    exact hordered.imp Int.ne_of_lt

/-- Below the start of a walk only the texts of the ideas are counted. -/
theorem visit_wordVisitor_below (aggregator : Aggregator) (idea : Idea) (level : Nat)
    (above : Option Unit) (counter : Counter) (entries : List Entry) :
    aggregator.wordVisitor.visit idea (level + 1) above ⟨counter, entries⟩ =
      (.ok (.proceed ()), ⟨counter.addIdea aggregator.settings.wordWeights idea, entries⟩) := rfl

theorem visit_wordVisitor_start {idea : Idea} {posts : List Post}
    (hposts : (aggregator.textPosts idea).result = .ok posts) (above : Option Unit)
    (counter : Counter) (entries : List Entry) :
    ∃ later, aggregator.wordVisitor.visit idea 0 above ⟨counter, entries⟩ =
      (.ok (.proceed ()), ⟨(counter.addIdea aggregator.settings.wordWeights idea).addPosts
        aggregator.settings.wordWeights [] posts, later⟩) := by
  refine ⟨entries ++ (aggregator.textPosts idea).entries, ?_⟩
  have htraced (counted : Counter) :
      Attempt.traced (aggregator.textPosts idea) (⟨counted, entries⟩ : Journaled Counter) =
        (.ok posts, ⟨counted, entries ++ (aggregator.textPosts idea).entries⟩) := by
    rw [Attempt.traced, hposts]
  exact (Attempt.bind_of_ok (htraced _)).trans rfl

theorem wordVisitor_cutsBy (hlegible : aggregator.store.Legible)
    (hthreaded : Threaded aggregator.store.posts) :
    aggregator.wordVisitor.CutsBy fun _ => False where
  visit := by
    rintro idea (_ | level) above ⟨counter, entries⟩
    · obtain ⟨posts, hposts, -⟩ := textPosts_result hlegible hthreaded idea
      obtain ⟨later, hvisit⟩ := visit_wordVisitor_start hposts above counter entries
      exact ⟨_, _, hvisit, by simp [Outcome.value?]⟩
    · exact ⟨_, _, visit_wordVisitor_below aggregator idea level above counter entries,
        by simp [Outcome.value?]⟩
  finish idea level own below s := ⟨own, s, rfl⟩

/-- Since the visit of the first idea, the counter has been given the ideas that were visited, in
the same order. -/
def CountsFrom (weights : Config.WordWeights) (root : Idea) (first : Counter)
    (state : Counter × List (Callback Unit)) : Prop :=
  ∃ later, state.2.filterMap Callback.visitedIdea? = root :: later ∧
    state.1 = later.foldl (Counter.addIdea weights) first

/-- Below its start a walk adds the texts of each idea that it visits, and nothing else. -/
theorem wordVisitor_keepsBelow (aggregator : Aggregator) (root : Idea) (first : Counter) :
    aggregator.wordVisitor.recorded.KeepsBelow fun s =>
      CountsFrom aggregator.settings.wordWeights root first s.state where
  visit := by
    rintro idea level above ⟨⟨counter, calls⟩, entries⟩ ⟨later, hcalls, hcounter⟩
    refine ⟨later ++ [idea], ?_, ?_⟩
    · change (calls ++ [Callback.visited idea (level + 1) above]).filterMap _ = _
      rw [List.filterMap_append, hcalls]
      rfl
    · rw [List.foldl_append, ← hcounter]
      rfl
  finish := by
    rintro idea level own below ⟨⟨counter, calls⟩, entries⟩ ⟨later, hcalls, hcounter⟩
    refine ⟨later, ?_, hcounter⟩
    change (calls ++ [Callback.finished idea level own below]).filterMap _ = _
    rw [List.filterMap_append, hcalls]
    exact List.append_nil _

structure Gathers (aggregator : Aggregator) (discussion root : Id) (ideas : List Idea)
    (posts : List Post) : Prop where
  below : ∃ below, (aggregator.strategy.descendants aggregator.store root true).result = .ok below ∧
    below.Nodup ∧ (ideas.map (·.id)).Perm below
  stored : ∀ idea ∈ ideas, aggregator.store.findIdea idea.id = .ok (some idea)
  related : (aggregator.relatedPosts discussion root).result = .ok (posts.map (·.id))
  once : (posts.map (·.id)).Nodup
  storedPosts : ∀ post ∈ posts, aggregator.store.findPost post.id = .ok (some post)

/-- Adding first an idea, then the posts, and then the other ideas adds their texts, and those of
each idea once. -/
theorem exists_texts (weights : Config.WordWeights) (idea : Idea) (posts : List Post)
    (later : List Idea) (counter : Counter) :
    ∃ texts, texts.Perm (textsOf weights (idea :: later) posts) ∧
      later.foldl (Counter.addIdea weights)
      ((counter.addIdea weights idea).addPosts weights [] posts) = counter.addTexts texts := by
  obtain ⟨subjects, texts, hnodup, hmem, hperm, hadd⟩ := Counter.exists_addPosts_eq weights [] posts
  have hsubjects : subjects.Perm (cleanSubjects posts).dedup :=
    (List.perm_ext_iff_of_nodup hnodup (List.nodup_dedup _)).mpr fun subject => by
      rw [hmem, List.mem_dedup]
      simp
  have hposts :=
    hperm.trans ((hsubjects.map fun subject => (subject, weights.subject)).append_left _)
  refine ⟨idea.texts weights ++ texts ++ later.flatMap (Idea.texts weights), ?_, ?_⟩
  · rw [textsOf, List.flatMap_cons, List.append_assoc, List.append_assoc, List.append_assoc]
    exact ((hposts.append_right _).trans List.perm_append_comm).append_left _
  · rw [Counter.foldl_addIdea, hadd, Counter.addIdea_eq, Counter.addTexts_append,
      Counter.addTexts_append]

/-- A walk of the whole graph counts the texts of the ideas and the posts below the root, in some
order. -/
theorem visit_counts (hconsistent : aggregator.store.Consistent)
    (hlegible : aggregator.store.Legible) (hversions : aggregator.store.TellsLiveVersions)
    (hthreaded : Threaded aggregator.store.posts)
    (hlive : aggregator.store.isLiveIdeaOf discussion root) {idea : Idea}
    (hidea : aggregator.store.findIdea root = .ok (some idea)) {posts : List Post}
    (hposts : (aggregator.textPosts idea).result = .ok posts) {below : List Id}
    (hbelow : aggregator.store.IsClosureOf .forward [root] true below) (order : WalkOrder)
    (counter : Counter) :
    let walk := aggregator.store.visit root order aggregator.wordVisitor counter
    ∃ came ideas texts, walk.1.result = .ok came ∧ walk.2 = counter.addTexts texts ∧
      (ideas.map (·.id)).Perm below ∧
      (∀ idea ∈ ideas, aggregator.store.findIdea idea.id = .ok (some idea)) ∧
      texts.Perm (textsOf aggregator.settings.wordWeights ideas posts) := by
  intro walk
  let weights := aggregator.settings.wordWeights
  let recorded := aggregator.store.visit root order aggregator.wordVisitor.recorded (counter, [])
  have hsame : Prod.map id Prod.fst recorded = walk :=
    aggregator.store.visit_recorded root order aggregator.wordVisitor counter
  obtain ⟨came, hcame, hvisited, -, hstored⟩ := hconsistent.visit_covers hlegible hversions
    (wordVisitor_cutsBy hlegible hthreaded) order (isLiveIdea_of_isLiveIdeaOf hlive) counter hbelow
  have hcounted : CountsFrom weights idea ((counter.addIdea weights idea).addPosts weights [] posts)
      recorded.2 := by
    refine hconsistent.visit_keeps hlegible hversions hlive hidea
      (aggregator.wordVisitor_keepsBelow idea _) order fun entries => ⟨[], ?_⟩
    obtain ⟨after, hvisit⟩ := visit_wordVisitor_start hposts none counter entries
    simp only [Visitor.recorded, hvisit]
    exact ⟨rfl, rfl⟩
  obtain ⟨later, hideas, hcounter⟩ := hcounted
  obtain ⟨texts, hperm, htexts⟩ := exists_texts weights idea posts later counter
  rw [hideas] at hvisited hstored
  refine ⟨came, idea :: later, texts, ?_, ?_, hvisited, hstored, hperm⟩
  · rw [← hsame]
    exact hcame
  · rw [← hsame]
    exact hcounter.trans htexts

/-- The texts that are counted for a live idea are those of the ideas and the posts that belong to
it, for every order and every counter. -/
theorem exists_counted (hconsistent : aggregator.store.Consistent)
    (hlegible : aggregator.store.Legible) (hversions : aggregator.store.TellsLiveVersions)
    (hthreaded : Threaded aggregator.store.posts)
    (hlive : aggregator.store.isLiveIdeaOf discussion root) :
    ∃ ideas posts, aggregator.Gathers discussion root ideas posts ∧
      ∀ (order : WalkOrder) (counter : Counter),
      let walk := aggregator.store.visit root order aggregator.wordVisitor counter
      ∃ came texts, walk.1.result = .ok came ∧ walk.2 = counter.addTexts texts ∧
        texts.Perm (textsOf aggregator.settings.wordWeights ideas posts) := by
  obtain ⟨row, hrow, hrowLive, hhome⟩ := isLiveIdeaOf_iff.mp hlive
  obtain ⟨idea, hread⟩ := hlegible.exists_readIdea hversions hrow hrowLive
  have hidea : aggregator.store.findIdea root = .ok (some idea) :=
    find_eq_ok_some_iff.mpr ⟨row, hrow, hread⟩
  obtain ⟨-, -, -, -, -, rfl, hdiscussion, -⟩ := IdeaRow.read_eq_ok_iff.mp hread
  obtain rfl : idea.discussion = discussion := hdiscussion.trans hhome
  obtain ⟨posts, hposts, hrelated, hnodup, hpostsStored⟩ :=
    aggregator.textPosts_result hlegible hthreaded idea
  obtain ⟨below, hfound, hbelow⟩ := aggregator.subtree_result idea.id
  have hwalk := aggregator.visit_counts hconsistent hlegible hversions hthreaded hlive hidea
    hposts hbelow
  obtain ⟨-, ideas, -, -, -, hids, hstored, -⟩ :=
    hwalk .depthFirst { locales := [], leastLength := 0 }
  refine ⟨ideas, posts,
    ⟨⟨below, hfound, hbelow.1.imp Int.ne_of_lt, hids⟩, hstored, hrelated, hnodup,
      hpostsStored⟩, fun order counter => ?_⟩
  obtain ⟨came, others, texts, hcame, hcounter, hotherIds, hotherStored, hperm⟩ :=
    hwalk order counter
  have hothers : others.Perm ideas :=
    perm_of_map_id hotherStored hstored (hotherIds.trans hids.symm)
  exact ⟨came, texts, hcame, hcounter, hperm.trans (textsOf_perm hothers _ posts)⟩

theorem wordWeights_of_visit {idea : Id} {order : WalkOrder} {locales : List String}
    {came : Option Unit} :
    let counter : Counter := { locales, leastLength := aggregator.settings.leastWordLength }
    let walk := aggregator.store.visit idea order aggregator.wordVisitor counter
    walk.1.result = .ok came → (aggregator.wordWeights idea locales order).result = .ok walk.2 := by
  intro counter walk hcame
  change (walk.1 >>= fun _ => Traced.ofExcept (.ok walk.2)).result = _
  rw [Traced.result_bind, hcame]
  rfl

end Aggregator

end Deliberation
