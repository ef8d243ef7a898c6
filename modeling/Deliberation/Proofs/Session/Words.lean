import Deliberation.Proofs.Aggregation.Words
import Deliberation.Proofs.Session.Snapshot
import Deliberation.Proofs.Session.Thread
import Deliberation.Proofs.Text.Clean

/-!
Counting words after any history. The texts that an idea is counted by are told by the ideas below
it and by the posts related to it, for both closure strategies and both orders of walks. Titles,
definitions and bodies are cleaned once; a subject is cleaned before it is compared with the others,
and again when its words are counted.
-/

namespace Deliberation.Session

open Store Words

variable (medium : Medium) (watcher : Watcher) (history : History) (strategy : ClosureStrategy)
  (settings : Config.Analytics) {discussion root : Id}

/-- The words below a live idea can always be counted, and they are those of some arrangement of its
texts. -/
theorem exists_counted (hlive : (storeAfter medium watcher history).isLiveIdeaOf discussion root) :
    let aggregator : Aggregator := ⟨storeAfter medium watcher history, strategy, settings⟩
    ∃ ideas posts, aggregator.Gathers discussion root ideas posts ∧
      ∀ (order : WalkOrder) (counter : Counter),
      let walk := aggregator.store.visit root order aggregator.wordVisitor counter
      ∃ came texts, walk.1.result = .ok came ∧ walk.2 = counter.addTexts texts ∧
        texts.Perm (textsOf settings.wordWeights ideas posts) :=
  Aggregator.exists_counted (storeAfter_consistent medium watcher history)
    (storeAfter_legible medium watcher history)
    (storeAfter_tellsLiveVersions medium watcher history)
    (storeAfter_threaded medium watcher history) hlive

/-- Whatever was asked of a new database before: a walk that counts words gives its counter,
whatever that holds, the titles and definitions of the ideas below a live idea, the bodies of the
posts related to it, and each of the cleaned subjects of these posts that is not empty. Each idea,
each post and each subject counts once, however many ways lead there. -/
theorem counted_texts (hlive : (storeAfter medium watcher history).isLiveIdeaOf discussion root) :
    let aggregator : Aggregator := ⟨storeAfter medium watcher history, strategy, settings⟩
    ∃ ideas posts, aggregator.Gathers discussion root ideas posts ∧ ∀ order : WalkOrder,
      (∀ counter : Counter,
        let walk := aggregator.store.visit root order aggregator.wordVisitor counter
        ∃ came texts, walk.1.result = .ok came ∧ walk.2 = counter.addTexts texts ∧
          texts.Perm (textsOf settings.wordWeights ideas posts)) ∧
      ∀ locales, ∃ texts, texts.Perm (textsOf settings.wordWeights ideas posts) ∧
        (aggregator.wordWeights root locales order).result =
          .ok (Counter.addTexts { locales, leastLength := settings.leastWordLength } texts) := by
  intro aggregator
  obtain ⟨ideas, posts, hgathers, hcounted⟩ :=
    exists_counted medium watcher history strategy settings hlive
  refine ⟨ideas, posts, hgathers, fun order => ⟨hcounted order, fun locales => ?_⟩⟩
  obtain ⟨came, texts, hcame, hcounter, hperm⟩ :=
    hcounted order { locales, leastLength := settings.leastWordLength }
  refine ⟨texts, hperm, ?_⟩
  rw [← hcounter]
  exact Aggregator.wordWeights_of_visit hcame

/-- A post and a reply to it with the same subject, tied to different ideas of a tangle. -/
def conversed : History := tangled ++ [
  (⟨7, 0⟩, .createPost
    { discussion := 1, creator := 7, subject := some "<b>Wind</b> power",
      body := some "Turbines" }),
  (⟨8, 0⟩, .createPost
    { discussion := 1, creator := 8, parent := some 1, subject := some "Wind&nbsp;power" }),
  (⟨9, 0⟩, .linkContent { idea := some 2, post := 1, kind := .relatedPost, creator := 7 }),
  (⟨10, 0⟩, .linkContent { idea := some 3, post := 2, kind := .extract, creator := 7 })]

theorem conversed_counted_texts :
    let aggregator : Aggregator := ⟨storeAfter .memory .nobody conversed, .native, {}⟩
    (storeAfter .memory .nobody conversed).isLiveIdeaOf 1 1 ∧
      ∃ ideas posts texts, aggregator.Gathers 1 1 ideas posts ∧
      texts.Perm (textsOf aggregator.settings.wordWeights ideas posts) ∧
      (aggregator.wordWeights 1 ["en"] .depthFirst).result =
        .ok (Counter.addTexts
          { locales := ["en"], leastLength := aggregator.settings.leastWordLength } texts) := by
  intro aggregator
  have hlive : (storeAfter .memory .nobody conversed).isLiveIdeaOf 1 1 := by decide +kernel
  obtain ⟨ideas, posts, hgathers, hcounted⟩ :=
    counted_texts .memory .nobody conversed .native {} hlive
  obtain ⟨texts, hperm, hresult⟩ := (hcounted .depthFirst).2 ["en"]
  exact ⟨hlive, ideas, posts, texts, hgathers, hperm, hresult⟩

/-! ## Subjects -/

/-- Whatever was asked of a new database before: titles, definitions and bodies add the words that
are left once they have been cleaned. A subject adds the words that are left once it has been
cleaned twice; the second cleaning changes nothing exactly if no tag and no reference is left after
the first. -/
theorem counted_words (hlive : (storeAfter medium watcher history).isLiveIdeaOf discussion root) :
    let aggregator : Aggregator := ⟨storeAfter medium watcher history, strategy, settings⟩
    let weights := settings.wordWeights
    ∃ ideas posts, aggregator.Gathers discussion root ideas posts ∧
      (∀ (order : WalkOrder) (counter : Counter),
        let walk := aggregator.store.visit root order aggregator.wordVisitor counter
        ∃ came occurrences, walk.1.result = .ok came ∧ walk.2 = counter.addOccurrences occurrences ∧
          occurrences.Perm
            ((ideas.flatMap (Idea.texts weights) ++ posts.flatMap (Post.texts weights)).flatMap
                (fun entry => counter.addedBy (Text.clean entry.1) entry.2) ++
              (cleanSubjects posts).dedup.flatMap fun subject =>
                counter.addedBy (Text.clean subject) weights.subject)) ∧
      ∀ subject ∈ cleanSubjects posts, Text.clean subject = subject ↔
        ¬ Text.HasTag subject.toList ∧ ¬ Text.HasReference subject.toList := by
  intro aggregator weights
  obtain ⟨ideas, posts, hgathers, hcounted⟩ :=
    exists_counted medium watcher history strategy settings hlive
  refine ⟨ideas, posts, hgathers, fun order counter => ?_, fun subject hsubject => ?_⟩
  · obtain ⟨came, texts, hcame, hcounter, hperm⟩ := hcounted order counter
    refine ⟨came, texts.flatMap counter.occurrencesIn, hcame,
      hcounter.trans (counter.addTexts_eq texts), ?_⟩
    have hoccurrences := hperm.flatMap_right counter.occurrencesIn
    rw [textsOf, List.flatMap_append, List.flatMap_map] at hoccurrences
    exact hoccurrences
  · obtain ⟨-, post, -, hclean⟩ := mem_cleanSubjects_iff.mp hsubject
    obtain ⟨text, -, rfl⟩ := Option.map_eq_some_iff.mp hclean
    exact Text.clean_clean_iff

/-- A post with a subject in which a word stands between escaped angle brackets. -/
def escaped : History := [
  (⟨0, 0⟩, .createDiscussion { slug := "energy", topic := "Energy" }),
  (⟨1, 0⟩, .createIdea { discussion := 1 }),
  (⟨2, 0⟩, .createPost { discussion := 1, creator := 7, subject := some "&lt;solar&gt; wind" }),
  (⟨3, 0⟩, .linkContent { idea := some 2, post := 1, kind := .relatedPost, creator := 7 })]

theorem escaped_counted_words :
    let aggregator : Aggregator := ⟨storeAfter .memory .nobody escaped, .native, {}⟩
    (storeAfter .memory .nobody escaped).isLiveIdeaOf 1 2 ∧
      ∃ ideas posts, aggregator.Gathers 1 2 ideas posts ∧
      ∀ subject ∈ cleanSubjects posts, Text.clean subject = subject ↔
        ¬ Text.HasTag subject.toList ∧ ¬ Text.HasReference subject.toList := by
  intro aggregator
  have hlive : (storeAfter .memory .nobody escaped).isLiveIdeaOf 1 2 := by decide +kernel
  obtain ⟨ideas, posts, hgathers, -, hsubjects⟩ :=
    counted_words .memory .nobody escaped .native {} hlive
  exact ⟨hlive, ideas, posts, hgathers, hsubjects⟩

/-- No text that is counted has the word in it once it has been cleaned; the subject has lost it
before. -/
theorem word_not_mem_of_escaped {ideas : List Idea} {posts : List Post}
    {weights : Config.WordWeights}
    (hideas :
      ∀ idea ∈ ideas, (storeAfter .memory .nobody escaped).findIdea idea.id = .ok (some idea))
    (hposts :
      ∀ post ∈ posts, (storeAfter .memory .nobody escaped).findPost post.id = .ok (some post)) :
    ∀ entry ∈ textsOf weights ideas posts, "solar" ∉ Text.words 3 (Text.clean entry.1) := by
  have hideaRows : ∀ row ∈ (storeAfter .memory .nobody escaped).ideas.rows,
      ∀ text ∈ [row.shortTitle, row.longTitle, row.definition].reduceOption,
        "solar" ∉ Text.words 3 (Text.clean text) := by decide +kernel
  have hpostRows : ∀ row ∈ (storeAfter .memory .nobody escaped).posts.rows, row.body = none ∧
      ∀ subject ∈ row.subject.map Text.clean, "solar" ∉
        Text.words 3 (Text.clean subject) := by decide +kernel
  intro entry hentry
  simp only [textsOf, List.mem_append, List.mem_flatMap, List.mem_map, List.mem_dedup] at hentry
  rcases hentry with (⟨idea, hmem, htext⟩ | ⟨post, hmem, htext⟩) | ⟨subject, hmem, rfl⟩
  · obtain ⟨row, hrow, hread⟩ := find_eq_ok_some_iff.mp (hideas idea hmem)
    obtain ⟨-, -, -, -, -, -, -, hshort, hlong, hdefinition, -⟩ := IdeaRow.read_eq_ok_iff.mp hread
    refine hideaRows row (Table.mem_rows_iff.mpr ⟨_, hrow⟩) entry.1
      (List.mem_filterMap.mpr ⟨_, ?_, rfl⟩)
    rw [← hshort, ← hlong, ← hdefinition]
    exact mem_of_mem_texts htext
  · obtain ⟨row, hrow, hread⟩ := find_eq_ok_some_iff.mp (hposts post hmem)
    obtain ⟨-, -, -, -, -, -, -, -, hbody, -⟩ := PostRow.read_eq_ok_iff.mp hread
    rw [Post.texts, hbody, (hpostRows row (Table.mem_rows_iff.mpr ⟨_, hrow⟩)).1] at htext
    cases htext
  · obtain ⟨-, post, hmem, hclean⟩ := mem_cleanSubjects_iff.mp hmem
    obtain ⟨row, hrow, hread⟩ := find_eq_ok_some_iff.mp (hposts post hmem)
    obtain ⟨-, -, -, -, -, -, -, hsame, -⟩ := PostRow.read_eq_ok_iff.mp hread
    rw [hsame] at hclean
    exact (hpostRows row (Table.mem_rows_iff.mpr ⟨_, hrow⟩)).2 subject hclean

theorem isRelatedTo_of_escaped : (storeAfter .memory .nobody escaped).IsRelatedTo 1 1 2 := by
  refine ⟨?_, isVisibleIdeaOf_iff.mp (by decide +kernel), 1, .refl, ?_⟩
  · exact ⟨_, rfl, by decide +kernel, by decide +kernel⟩
  · exact ⟨1, _, rfl, by decide +kernel, by decide +kernel, by decide +kernel⟩

/-- The word between the brackets is left after the subject has been cleaned once, and yet it is not
counted. -/
theorem escaped_subject_loses_word :
    let aggregator : Aggregator := ⟨storeAfter .memory .nobody escaped, .native, {}⟩
    aggregator.store.IsRelatedTo 1 1 2 ∧
    (aggregator.store.posts.get? 1).bind (·.subject) = some "&lt;solar&gt; wind" ∧
    Text.words 3 (Text.clean "&lt;solar&gt; wind") = ["solar", "wind"] ∧
      isStopWord [] "solar" = false ∧
    ∃ counter, (aggregator.wordWeights 2 [] .depthFirst).result = .ok counter ∧
      counter.weight "solar" = .zero := by
  intro aggregator
  have hlive : (storeAfter .memory .nobody escaped).isLiveIdeaOf 1 2 := by decide +kernel
  obtain ⟨ideas, posts, hgathers, hcounted⟩ :=
    exists_counted .memory .nobody escaped .native {} hlive
  obtain ⟨came, texts, hcame, hcounter, hperm⟩ :=
    hcounted .depthFirst { locales := [], leastLength := 3 }
  refine ⟨isRelatedTo_of_escaped, by decide +kernel, by decide +kernel, rfl, _,
    Aggregator.wordWeights_of_visit hcame, ?_⟩
  have hnone : "solar" ∉ (Counter.addTexts { locales := [], leastLength := 3 } texts).entries.map
      Prod.fst := by
    rw [Counter.mem_map_fst_addTexts_iff]
    rintro (hold | ⟨entry, hentry, -, hword⟩)
    · cases hold
    · exact word_not_mem_of_escaped hgathers.stored hgathers.storedPosts entry
        (hperm.mem_iff.mp hentry) (List.mem_filter.mp hword).1
  exact (congrArg (Counter.weight · "solar") hcounter).trans (Counter.weight_of_not_mem hnone)

end Deliberation.Session
