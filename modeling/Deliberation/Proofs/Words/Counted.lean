import Deliberation.Proofs.Words.Ranking
import Deliberation.Proofs.Words.Texts

/-!
What a new counter holds once some texts were added to it: the words of those texts that count,
apart from stop words, each with the sum of the weights of its occurrences. The ranking of the words
is determined by these sums.
-/

namespace Deliberation.Words

open Binary64

/-- The weights of the occurrences of a word in some texts, in the order of the texts. -/
def occurrenceWeights (least : Nat) (texts : List (String × Float)) (word : String) : List Float :=
  texts.flatMap fun entry => List.replicate
    ((Text.words least (Text.clean entry.1)).count word) entry.2

/-- The sum of these weights, from left to right. -/
def totalWeight (least : Nat) (texts : List (String × Float)) (word : String) : Float :=
  (occurrenceWeights least texts word).foldl (· + ·) 0

/-- A word occurs in a text with a positive weight, and is a stop word of no locale. -/
def IsCounted (locales : List String) (least : Nat) (texts : List (String × Float))
    (word : String) : Prop :=
  (∃ entry ∈ texts, 0 < entry.2 ∧ word ∈ Text.words least (Text.clean entry.1)) ∧
    ∀ locale ∈ locales, word ∉ stopWords locale

variable {locales : List String} {least : Nat} {texts : List (String × Float)} {word : String}
  {number : Float}

theorem isStopWord_eq_false_iff :
    isStopWord locales word = false ↔ ∀ locale ∈ locales, word ∉ stopWords locale := by
  simp [isStopWord]

theorem mem_occurrenceWeights_iff : number ∈ occurrenceWeights least texts word ↔
    ∃ entry ∈ texts, word ∈ Text.words least (Text.clean entry.1) ∧ number = entry.2 := by
  simp only [occurrenceWeights, List.mem_flatMap, List.mem_replicate, ← List.count_pos_iff,
    Nat.pos_iff_ne_zero]

theorem occurrenceWeights_cons (least : Nat) (entry : String × Float)
    (texts : List (String × Float)) (word : String) :
    occurrenceWeights least (entry :: texts) word =
      occurrenceWeights least [entry] word ++ occurrenceWeights least texts word := by
  simp [occurrenceWeights]

theorem isNonneg_of_mem_occurrenceWeights (htexts : ∀ entry ∈ texts, IsNonneg entry.2) :
    ∀ number ∈ occurrenceWeights least texts word, IsNonneg number := by
  intro number hnumber
  obtain ⟨entry, hentry, -, rfl⟩ := mem_occurrenceWeights_iff.mp hnumber
  exact htexts entry hentry

theorem totalWeight_pos (htexts : ∀ entry ∈ texts, IsNonneg entry.2)
    (hword : IsCounted locales least texts word) : 0 < totalWeight least texts word := by
  obtain ⟨⟨entry, hentry, hpos, hoccurs⟩, -⟩ := hword
  have hnumbers : ∀ number ∈ occurrenceWeights least texts word, IsNonneg number :=
    isNonneg_of_mem_occurrenceWeights htexts
  refine (IsSum.foldl_add (Or.inl rfl) hnumbers).2.mpr (Or.inr ⟨entry.2, ?_, hpos⟩)
  exact mem_occurrenceWeights_iff.mpr ⟨entry, hentry, hoccurs, rfl⟩

/-! ## What the counter holds -/

namespace Counter

variable {counter : Counter} {x : Float}

theorem map_snd_filter_map (words : List String) (word : String) (weight : Weight) :
    ((words.map fun found => (found, weight)).filter fun occurrence => occurrence.1 = word).map
      Prod.snd = List.replicate (words.count word) weight := by
  rw [List.filter_map, List.map_map]
  calc (words.filter fun found => found = word).map (fun _ => weight)
      = (List.replicate (words.count word) word).map fun _ => weight := by rw [List.filter_eq]
    _ = List.replicate (words.count word) weight := List.map_replicate

/-- A text adds its weight once for each occurrence of a word, unless that is a stop word. -/
theorem weight_addText (hstop : isStopWord counter.locales word = false) (hsum : IsSum x)
    (hweight : counter.weight word = .ofFloat x) {entry : String × Float}
    (hentry : IsNonneg entry.2) :
    (counter.addText entry.1 (.ofFloat entry.2)).weight word =
      .ofFloat ((occurrenceWeights counter.leastLength [entry] word).foldl (· + ·) x) := by
  rw [addText_eq, weight_addOccurrences, hweight, occurrenceWeights, List.flatMap_singleton]
  unfold occurrencesIn addedBy
  by_cases hcounts : (Weight.ofFloat entry.2).counts
  · have hpos := (Weight.counts_ofFloat hentry).mp hcounts
    rw [if_pos hcounts, map_snd_filter_map, List.count_filter (by simpa using hstop),
      ← List.map_replicate,
      Weight.foldl_add_ofFloat hsum fun y hy => List.eq_of_mem_replicate hy ▸ hpos]
  · have hzero := hentry.resolve_right fun hpos => hcounts ((Weight.counts_ofFloat hentry).mpr hpos)
    rw [if_neg hcounts, hsum.foldl_add_of_isZero fun y hy => List.eq_of_mem_replicate hy ▸ hzero]
    rfl

/-- The weight of a word after some texts is the sum of its occurrences in them, added in their
order. -/
theorem weight_addTexts (counter : Counter) (hstop : isStopWord counter.locales word = false)
    (hsum : IsSum x) (hweight : counter.weight word = .ofFloat x)
    (htexts : ∀ entry ∈ texts, IsNonneg entry.2) :
    (counter.addTexts texts).weight word =
      .ofFloat ((occurrenceWeights counter.leastLength texts word).foldl (· + ·) x) := by
  induction texts generalizing counter x with
  | nil => exact hweight
  | cons entry rest ih =>
    have hentry := htexts entry List.mem_cons_self
    have hnumbers : ∀ number ∈ occurrenceWeights counter.leastLength [entry] word,
        IsNonneg number :=
      isNonneg_of_mem_occurrenceWeights (List.forall_mem_singleton.mpr hentry)
    have hrules : (counter.addText entry.1 (.ofFloat entry.2)).locales = counter.locales ∧
        (counter.addText entry.1 (.ofFloat entry.2)).leastLength = counter.leastLength := by
      rw [addText_eq]
      exact ⟨rfl, rfl⟩
    have hrest := ih _ (hrules.1 ▸ hstop)
      (hsum.foldl_add hnumbers).1 (weight_addText hstop hsum hweight hentry)
      fun later hlater => htexts later (List.mem_cons_of_mem _ hlater)
    rw [hrules.2, ← List.foldl_append, ← occurrenceWeights_cons] at hrest
    exact hrest

/-- The words of a new counter are those that count. -/
theorem mem_words_iff (htexts : ∀ entry ∈ texts, IsNonneg entry.2) :
    word ∈ (Counter.addTexts { locales, leastLength := least } texts).entries.map Prod.fst ↔
      IsCounted locales least texts word := by
  rw [mem_map_fst_addTexts_iff, List.map_nil, or_iff_right List.not_mem_nil, IsCounted,
    ← isStopWord_eq_false_iff]
  constructor
  · rintro ⟨entry, hentry, hcounts, hkept⟩
    obtain ⟨hword, hstop⟩ := List.mem_filter.mp hkept
    exact ⟨⟨entry, hentry, (Weight.counts_ofFloat (htexts entry hentry)).mp hcounts, hword⟩,
      by simpa using hstop⟩
  · rintro ⟨⟨entry, hentry, hpos, hword⟩, hstop⟩
    refine ⟨entry, hentry, (Weight.counts_ofFloat (htexts entry hentry)).mpr hpos,
      List.mem_filter.mpr ⟨hword, ?_⟩⟩
    rw [hstop]
    rfl

/-- A new counter has, after some texts, exactly the words that count in them, with their weights.
-/
theorem addTexts_holds (locales : List String) (least : Nat)
    (htexts : ∀ entry ∈ texts, IsNonneg entry.2) :
    (Counter.addTexts { locales, leastLength := least } texts).Holds (totalWeight least texts)
      (IsCounted locales least texts) := by
  have hnodup :
      ((Counter.addTexts { locales, leastLength := least } texts).entries.map Prod.fst).Nodup := by
    rw [addTexts_eq]
    exact nodup_addOccurrences List.nodup_nil
  refine ⟨hnodup, ?_, fun word hword => totalWeight_pos htexts hword⟩
  rintro ⟨word, weight⟩
  rw [mem_entries_iff hnodup, mem_words_iff htexts]
  refine and_congr_right fun hword => ?_
  rw [weight_addTexts { locales, leastLength := least } (isStopWord_eq_false_iff.mpr hword.2)
    (Or.inl rfl) rfl htexts]
  rfl

end Counter

open Counter

/-- A new counter that has been given any texts, with weights that settings can have, holds each
word that counts once, with the sum of the weights of its occurrences from left to right; that is a
positive number. The best words are the first ones in the only arrangement of these words by weight
and then by the alphabet, in whatever order the counter lists its entries. -/
theorem counts_and_ranks (locales : List String) (least : Nat)
    (hadmitted : ∀ entry ∈ texts, Config.Admits entry.2) :
    let counter := Counter.addTexts { locales, leastLength := least } texts
    let total := totalWeight least texts
    let IsWord := IsCounted locales least texts
    counter.Holds total IsWord ∧
      (∀ word, IsWord word → counter.weight word = .ofFloat (total word) ∧
        (counter.weight word).isNaN = false) ∧
      (∃ ranked, (IsRanking total IsWord ranked ∧ ∀ other, IsRanking total IsWord other →
        other = ranked) ∧ ∀ entries : List (String × Weight), entries.Perm counter.entries →
          ∀ n, ({ counter with entries } : Counter).best n = ranked.take n) ∧
      ∀ n, (counter.best n).Nodup ∧ (counter.best n).length = min n counter.entries.length ∧
        ∀ m ≤ n, counter.best m <+: counter.best n := by
  intro counter total IsWord
  have hholds : counter.Holds total IsWord := addTexts_holds locales least fun entry hentry =>
    isNonneg_of_not_lt (Config.admits_iff.mp (hadmitted entry hentry)).1
      (Config.admits_iff.mp (hadmitted entry hentry)).2
  have hranking := hholds.isRanking
  refine ⟨hholds, fun word hword => ?_,
    ⟨_, ⟨hranking, fun other hother => hother.eq hholds.positive hranking⟩,
      fun entries hperm => (hholds.perm hperm).best_eq hranking⟩, fun n => ?_⟩
  · have hentry := (hholds.mem_iff (word, .ofFloat (total word))).mpr ⟨hword, rfl⟩
    rw [← ((mem_entries_iff hholds.once).mp hentry).2]
    exact ⟨rfl, Weight.isNaN_ofFloat (Or.inr (hholds.positive word hword))⟩
  · refine ⟨?_, length_best counter n, fun m hm => best_prefix_best counter hm⟩
    rw [hholds.best_eq hranking]
    exact hranking.once.sublist (List.take_sublist _ _)

/-- Two texts with weights that the settings have if nothing else is said. -/
def solarTexts : List (String × Float) := [("Solar panels", 2), ("<p>solar power</p>", 0.5)]

theorem solarTexts_count_and_rank :
    let counter := Counter.addTexts { locales := ["en"], leastLength := 3 } solarTexts
    (∀ entry ∈ solarTexts, Config.Admits entry.2) ∧ IsCounted ["en"] 3 solarTexts "solar" ∧
      counter.weight "solar" = .ofFloat 2.5 ∧ (counter.best 2).length = 2 := by
  have hvalid : ({} : Config).validate = .ok () := by decide +kernel
  have hadmitted : ∀ entry ∈ solarTexts, Config.Admits entry.2 := by
    simp only [solarTexts, List.forall_mem_cons]
    exact ⟨⟨{}, hvalid, by simp [Config.WordWeights.toList]⟩,
      ⟨{}, hvalid, by simp [Config.WordWeights.toList]⟩, List.forall_mem_nil _⟩
  obtain ⟨hholds, hweights, -, hbest⟩ := counts_and_ranks ["en"] 3 hadmitted
  have hentry : ("solar", .ofFloat 2.5) ∈
      (Counter.addTexts { locales := ["en"], leastLength := 3 } solarTexts).entries := by
    decide +kernel
  obtain ⟨hcounted, hsum⟩ := (hholds.mem_iff _).mp hentry
  have hlength :
      (Counter.addTexts { locales := ["en"], leastLength := 3 } solarTexts).entries.length = 3 := by
    decide +kernel
  refine ⟨hadmitted, hcounted, (hweights "solar" hcounted).1.trans hsum.symm,
    (hbest 2).2.1.trans ?_⟩
  rw [hlength]
  rfl

end Deliberation.Words
