import Deliberation.Words.Counter
import Mathlib.Tactic.Tauto

/-!
Counters that have been given several texts. What a counter holds then is told by the occurrences of
words in these texts, one after another: each of them adds the weight of its text.
-/

namespace Deliberation.Words.Counter

variable {counter : Counter}

/-- The counter with some texts added, one after another. -/
def addTexts (counter : Counter) (texts : List (String × Float)) : Counter :=
  texts.foldl (fun counter entry => counter.addText entry.1 (.ofFloat entry.2)) counter

theorem addTexts_append (counter : Counter) (first second : List (String × Float)) :
    counter.addTexts (first ++ second) = (counter.addTexts first).addTexts second :=
  List.foldl_append

/-- What plain text adds: those of its words that are no stop words, each with the weight of the
text, if that counts. -/
def addedBy (counter : Counter) (plain : String) (weight : Float) : List (String × Weight) :=
  if (Weight.ofFloat weight).counts then
    ((Text.words counter.leastLength plain).filter fun word => !isStopWord counter.locales word).map
    fun word =>
      (word, .ofFloat weight)
  else []

/-- What a text adds once it has been cleaned. -/
def occurrencesIn (counter : Counter) (entry : String × Float) : List (String × Weight) :=
  counter.addedBy (Text.clean entry.1) entry.2

/-- The counter with some occurrences of words added, one after another. -/
def addOccurrences (counter : Counter) (occurrences : List (String × Weight)) : Counter :=
  { counter with
    entries :=
      occurrences.foldl (fun entries occurrence => addWeight occurrence.2 occurrence.1 entries)
      counter.entries }

theorem addOccurrences_append (counter : Counter) (first second : List (String × Weight)) :
    counter.addOccurrences (first ++ second) =
      (counter.addOccurrences first).addOccurrences second := by
  simp only [addOccurrences, List.foldl_append]

theorem addOccurrences_cons (counter : Counter) (occurrence : String × Weight)
    (rest : List (String × Weight)) :
    counter.addOccurrences (occurrence :: rest) =
      (counter.addOccurrences [occurrence]).addOccurrences rest :=
  rfl

theorem addText_eq (counter : Counter) (entry : String × Float) :
    counter.addText entry.1 (.ofFloat entry.2) =
      counter.addOccurrences (counter.occurrencesIn entry) := by
  unfold addText occurrencesIn addedBy addOccurrences
  split
  · rw [List.foldl_map]
    rfl
  · rfl

/-- Which words are kept does not depend on what has been counted. -/
theorem occurrencesIn_addOccurrences (counter : Counter) (occurrences : List (String × Weight)) :
    (counter.addOccurrences occurrences).occurrencesIn = counter.occurrencesIn := rfl

/-- Adding texts adds the occurrences in all of them, one after another. -/
theorem addTexts_eq (counter : Counter) (texts : List (String × Float)) :
    counter.addTexts texts = counter.addOccurrences (texts.flatMap counter.occurrencesIn) := by
  induction texts generalizing counter with
  | nil => rfl
  | cons entry rest ih =>
    calc counter.addTexts (entry :: rest)
        = (counter.addOccurrences (counter.occurrencesIn entry)).addTexts rest := by
          rw [addTexts, List.foldl_cons, addText_eq, addTexts]
      _ = (counter.addOccurrences (counter.occurrencesIn entry)).addOccurrences
            (rest.flatMap counter.occurrencesIn) := by
          rw [ih, occurrencesIn_addOccurrences]
      _ = counter.addOccurrences ((entry :: rest).flatMap counter.occurrencesIn) := by
          rw [List.flatMap_cons, addOccurrences_append]

/-! ## Words that are counted -/

variable {word other : String} {weight : Weight} {entries : List (String × Weight)}

theorem mem_map_fst_addWeight_iff :
    other ∈ (addWeight weight word entries).map Prod.fst ↔ other ∈ entries.map Prod.fst ∨
      other = word := by
  induction entries with
  | nil => simp [addWeight]
  | cons entry rest ih =>
    obtain ⟨known, sum⟩ := entry
    rw [addWeight]
    split
    · rename_i hknown
      simp [hknown]
      tauto
    · simp only [List.map_cons, List.mem_cons, ih]
      tauto

theorem mem_map_fst_addOccurrences_iff {occurrences : List (String × Weight)} :
    word ∈ (counter.addOccurrences occurrences).entries.map Prod.fst ↔
      word ∈ counter.entries.map Prod.fst ∨ word ∈ occurrences.map Prod.fst := by
  induction occurrences generalizing counter with
  | nil => simp [addOccurrences]
  | cons occurrence rest ih =>
    have hfirst : word ∈ (counter.addOccurrences [occurrence]).entries.map Prod.fst ↔
        word ∈ counter.entries.map Prod.fst ∨ word = occurrence.1 := mem_map_fst_addWeight_iff
    rw [addOccurrences_cons, ih, hfirst, List.map_cons, List.mem_cons, or_assoc]

/-- After some texts a counter has the words that it had, and those that are kept of the texts that
count. -/
theorem mem_map_fst_addTexts_iff {texts : List (String × Float)} :
    word ∈ (counter.addTexts texts).entries.map Prod.fst ↔ word ∈ counter.entries.map Prod.fst ∨
      ∃ entry ∈ texts, (Weight.ofFloat entry.2).counts ∧ word ∈ counter.keptWords entry.1 := by
  have hadded : ∀ entry, word ∈ (counter.occurrencesIn entry).map Prod.fst ↔
      (Weight.ofFloat entry.2).counts ∧ word ∈ counter.keptWords entry.1 := by
    intro entry
    unfold occurrencesIn addedBy keptWords
    by_cases hcounts : (Weight.ofFloat entry.2).counts
    · simp [hcounts]
    · simp [hcounts]
  rw [addTexts_eq, mem_map_fst_addOccurrences_iff, List.map_flatMap, List.mem_flatMap]
  simp only [hadded]

theorem lookup_of_not_mem (h : word ∉ entries.map Prod.fst) : entries.lookup word = none := by
  rw [List.lookup_eq_none_iff]
  intro entry hentry
  rw [bne_iff_ne]
  rintro rfl
  exact h (List.mem_map_of_mem hentry)

theorem weight_of_not_mem (h : word ∉ counter.entries.map Prod.fst) :
    counter.weight word = .zero := by
  rw [Counter.weight, lookup_of_not_mem h]
  rfl

/-! ## Weights of words -/

theorem lookup_cons_eq_ite (known : String) (sum : Weight) :
    ((known, sum) :: entries).lookup word = if word = known then some sum
      else entries.lookup word := by
  by_cases hword : word = known
  · simp [hword]
  · simp [List.lookup_cons, beq_false_of_ne hword, hword]

theorem lookup_addWeight : (addWeight weight word entries).lookup other =
    if other = word then some (((entries.lookup word).getD .zero).add weight)
      else entries.lookup other := by
  induction entries with
  | nil => exact lookup_cons_eq_ite _ _
  | cons entry rest ih =>
    obtain ⟨known, sum⟩ := entry
    rw [addWeight]
    by_cases hknown : known = word
    · subst hknown
      simp only [if_true, lookup_cons_eq_ite, Option.getD_some]
      split <;> rfl
    · rw [if_neg hknown, lookup_cons_eq_ite, lookup_cons_eq_ite, lookup_cons_eq_ite, ih,
        if_neg (Ne.symm hknown)]
      by_cases hother : other = known
      · rw [if_pos hother, if_pos hother, if_neg (hother ▸ hknown)]
      · rw [if_neg hother, if_neg hother]

/-- Where no word has two entries, looking a word up finds its entry. -/
theorem mem_iff_lookup (h : (entries.map Prod.fst).Nodup) :
    (word, weight) ∈ entries ↔ entries.lookup word = some weight := by
  induction entries with
  | nil => simp
  | cons entry rest ih =>
    obtain ⟨known, sum⟩ := entry
    rw [List.map_cons, List.nodup_cons] at h
    rw [lookup_cons_eq_ite, List.mem_cons, ih h.2, Prod.mk.injEq]
    by_cases hword : word = known
    · subst hword
      simp [lookup_of_not_mem h.1, eq_comm]
    · simp [hword]

/-- Where each word has one entry, the entries are the words with their weights. -/
theorem mem_entries_iff (h : (counter.entries.map Prod.fst).Nodup) :
    (word, weight) ∈ counter.entries ↔
      word ∈ counter.entries.map Prod.fst ∧ weight = counter.weight word := by
  constructor
  · intro hentry
    refine ⟨List.mem_map_of_mem hentry, ?_⟩
    rw [Counter.weight, (mem_iff_lookup h).mp hentry]
    rfl
  · rintro ⟨hword, rfl⟩
    obtain ⟨⟨_, sum⟩, hentry, rfl⟩ := List.mem_map.mp hword
    rw [Counter.weight, (mem_iff_lookup h).mp hentry]
    exact hentry

theorem nodup_addWeight (h : (entries.map Prod.fst).Nodup) :
    ((addWeight weight word entries).map Prod.fst).Nodup := by
  induction entries with
  | nil => exact List.pairwise_singleton _ word
  | cons entry rest ih =>
    obtain ⟨known, sum⟩ := entry
    rw [List.map_cons, List.nodup_cons] at h
    rw [addWeight]
    split
    · exact List.nodup_cons.mpr h
    · rename_i hknown
      refine List.nodup_cons.mpr ⟨fun hmem => ?_, ih h.2⟩
      rcases mem_map_fst_addWeight_iff.mp hmem with hold | hnew
      · exact h.1 hold
      · exact hknown hnew

theorem nodup_addOccurrences {occurrences : List (String × Weight)}
    (h : (counter.entries.map Prod.fst).Nodup) :
    ((counter.addOccurrences occurrences).entries.map Prod.fst).Nodup := by
  induction occurrences generalizing counter with
  | nil => exact h
  | cons occurrence rest ih =>
    rw [addOccurrences_cons]
    exact ih (nodup_addWeight h)

/-- An occurrence adds to the weight of its own word only. -/
theorem weight_addOccurrence (counter : Counter) (occurrence : String × Weight) (word : String) :
    (counter.addOccurrences [occurrence]).weight word =
      if word = occurrence.1 then (counter.weight word).add occurrence.2
        else counter.weight word := by
  change ((addWeight occurrence.2 occurrence.1 counter.entries).lookup word).getD .zero = _
  rw [lookup_addWeight]
  split
  · rename_i hword
    rw [hword]
    rfl
  · rfl

/-- The weight of a word is the sum of its occurrences, in the order in which they came. -/
theorem weight_addOccurrences (counter : Counter) (occurrences : List (String × Weight))
    (word : String) :
    (counter.addOccurrences occurrences).weight word = ((occurrences.filter fun occurrence =>
      occurrence.1 = word).map Prod.snd).foldl Weight.add (counter.weight word) := by
  induction occurrences generalizing counter with
  | nil => rfl
  | cons occurrence rest ih =>
    rw [addOccurrences_cons, ih, weight_addOccurrence]
    by_cases hword : occurrence.1 = word
    · simp [hword]
    · simp [hword, Ne.symm hword]

end Deliberation.Words.Counter
