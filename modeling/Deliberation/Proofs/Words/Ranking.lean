import Deliberation.Proofs.Words.Weight
import Deliberation.Words.Counter

/-!
Rankings of words with positive weights. Such weights are in a total order, so that the words stand
in one line, the heavier in front and equally heavy ones by the alphabet; where their counter holds
them makes no difference.
-/

namespace Deliberation.Words

open Binary64

/-- A word stands in front of another: it is heavier, or as heavy and earlier in the alphabet. -/
def Outranks (weightOf : String → Float) (one other : String) : Prop :=
  weightOf other < weightOf one ∨ weightOf one = weightOf other ∧ one < other

structure IsRanking (weightOf : String → Float) (IsWord : String → Prop) (ranked : List String) :
    Prop where
  mem_iff : ∀ word, word ∈ ranked ↔ IsWord word
  once : ranked.Nodup
  ordered : ranked.Pairwise (Outranks weightOf)

variable {weightOf : String → Float} {IsWord : String → Prop} {one other : String}
  {ranked others : List String}

theorem Outranks.asymm (hone : 0 < weightOf one) (hother : 0 < weightOf other)
    (h : Outranks weightOf one other) : ¬ Outranks weightOf other one := by
  simp only [Outranks, lt_iff_rank_lt hone hother, lt_iff_rank_lt hother hone,
    ← rank_inj hone hother, ← rank_inj hother hone] at h ⊢
  rcases h with hlt | ⟨hsame, hlt⟩
  · rintro (hgt | ⟨hsame, -⟩)
    · exact hgt.asymm hlt
    · exact hlt.ne hsame
  · rintro (hgt | ⟨-, hgt⟩)
    · exact hgt.ne hsame
    · exact hgt.asymm hlt

/-- Words with positive weights can be arranged in one way only. -/
theorem IsRanking.eq (hpos : ∀ word, IsWord word → 0 < weightOf word)
    (h : IsRanking weightOf IsWord ranked) (hothers : IsRanking weightOf IsWord others) :
    ranked = others := by
  have hperm : ranked.Perm others :=
    (List.perm_ext_iff_of_nodup h.once hothers.once).mpr fun word => by
    rw [h.mem_iff, hothers.mem_iff]
  refine List.Perm.eq_of_pairwise (fun one other hone hother hfront hback => ?_) h.ordered
    hothers.ordered hperm
  have honePos := hpos one ((h.mem_iff one).mp hone)
  have hotherPos := hpos other ((hothers.mem_iff other).mp hother)
  exact absurd hback (hfront.asymm honePos hotherPos)

namespace Counter

variable {counter : Counter} {a b : String × Weight}

theorem length_best (counter : Counter) (n : Nat) :
    (counter.best n).length = min n counter.entries.length := by
  rw [best, List.length_map, List.length_take, ranking, List.length_mergeSort]

theorem best_prefix_best (counter : Counter) {m n : Nat} (h : m ≤ n) :
    counter.best m <+: counter.best n :=
  (List.take_prefix_take_left h).map Prod.fst

/-- What entries are compared by: the rank of the weight, the heaviest first, and then the word. -/
def rankKey (entry : String × Weight) : (WithTop (Int ×ₗ Nat))ᵒᵈ ×ₗ String :=
  toLex (OrderDual.toDual (rank entry.2.toFloat), entry.1)

theorem rankKey_le_iff : rankKey a ≤ rankKey b ↔
    rank b.2.toFloat < rank a.2.toFloat ∨ rank a.2.toFloat = rank b.2.toFloat ∧ a.1 ≤ b.1 := by
  rw [rankKey, rankKey, Prod.Lex.toLex_le_toLex, OrderDual.toDual_lt_toDual, OrderDual.toDual_inj]

theorem ranksBefore_eq (ha : 0 < a.2.toFloat) (hb : 0 < b.2.toFloat) :
    ranksBefore a b = decide (rankKey a ≤ rankKey b) := by
  simp only [ranksBefore, Weight.isLess, lt_iff_rank_lt ha hb, lt_iff_rank_lt hb ha, rankKey_le_iff]
  rcases lt_trichotomy (rank a.2.toFloat) (rank b.2.toFloat) with hlt | hsame | hgt
  · simp [hlt, hlt.asymm, hlt.ne]
  · simp [hsame]
  · simp [hgt]

structure Holds (counter : Counter) (weightOf : String → Float) (IsWord : String → Prop) :
    Prop where
  once : (counter.entries.map Prod.fst).Nodup
  mem_iff :
    ∀ entry, entry ∈ counter.entries ↔ IsWord entry.1 ∧ entry.2 = .ofFloat (weightOf entry.1)
  positive : ∀ word, IsWord word → 0 < weightOf word

theorem Holds.perm (h : counter.Holds weightOf IsWord) {entries : List (String × Weight)}
    (hperm : entries.Perm counter.entries) : { counter with entries }.Holds weightOf IsWord where
  once := (hperm.map Prod.fst).nodup_iff.mpr h.once
  mem_iff entry := hperm.mem_iff.trans (h.mem_iff entry)
  positive := h.positive

theorem Holds.toFloat_eq (h : counter.Holds weightOf IsWord) {entry : String × Weight}
    (hentry : entry ∈ counter.entries) :
    entry.2.toFloat = weightOf entry.1 ∧ 0 < weightOf entry.1 := by
  obtain ⟨hword, hweight⟩ := (h.mem_iff entry).mp hentry
  rw [hweight, Weight.toFloat_ofFloat]
  exact ⟨rfl, h.positive entry.1 hword⟩

theorem Holds.ranking_eq (h : counter.Holds weightOf IsWord) :
    counter.ranking = counter.entries.mergeSort fun a b => decide (rankKey a ≤ rankKey b) := by
  have hpos : ∀ entry ∈ counter.entries, 0 < entry.2.toFloat := fun entry hentry => by
    rw [(h.toFloat_eq hentry).1]
    exact (h.toFloat_eq hentry).2
  have hsort := List.map_mergeSort (r := ranksBefore)
      (s := fun a b => decide (rankKey a ≤ rankKey b)) (f := id)
    fun a ha b hb => ranksBefore_eq (hpos a ha) (hpos b hb)
  rwa [List.map_id, List.map_id] at hsort

theorem Holds.isRanking (h : counter.Holds weightOf IsWord) :
    IsRanking weightOf IsWord (counter.ranking.map Prod.fst) := by
  have hperm : counter.ranking.Perm counter.entries := List.mergeSort_perm _ _
  have hwords : (counter.ranking.map Prod.fst).Nodup := (hperm.map Prod.fst).nodup_iff.mpr h.once
  refine ⟨fun word => ?_, hwords, List.pairwise_map.mpr ?_⟩
  · rw [(hperm.map Prod.fst).mem_iff, List.mem_map]
    constructor
    · rintro ⟨entry, hentry, rfl⟩
      exact ((h.mem_iff entry).mp hentry).1
    · exact fun hword => ⟨(word, .ofFloat (weightOf word)), (h.mem_iff _).mpr ⟨hword, rfl⟩, rfl⟩
  · have hsorted : counter.ranking.Pairwise fun a b => rankKey a ≤ rankKey b := by
      rw [h.ranking_eq]
      exact List.pairwise_mergeSort' _ _
    refine (hsorted.and (List.pairwise_map.mp hwords)).imp_of_mem ?_
    rintro a b ha hb ⟨hkey, hne⟩
    obtain ⟨haValue, haPos⟩ := h.toFloat_eq (hperm.mem_iff.mp ha)
    obtain ⟨hbValue, hbPos⟩ := h.toFloat_eq (hperm.mem_iff.mp hb)
    rw [rankKey_le_iff, haValue, hbValue, rank_inj haPos hbPos,
      ← lt_iff_rank_lt hbPos haPos] at hkey
    exact hkey.imp_right fun ⟨hsame, hle⟩ => ⟨hsame, lt_of_le_of_ne hle hne⟩

/-- The best words are the first ones of the only arrangement, however the counter holds its
entries. -/
theorem Holds.best_eq (h : counter.Holds weightOf IsWord)
    (hranked : IsRanking weightOf IsWord ranked) (n : Nat) : counter.best n = ranked.take n := by
  rw [best, List.map_take, h.isRanking.eq h.positive hranked]

end Counter

end Deliberation.Words
