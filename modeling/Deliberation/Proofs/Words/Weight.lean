import Deliberation.Proofs.Binary64
import Deliberation.Proofs.Config
import Deliberation.Words.Weight

/-!
The weights that words gather. They start from zero, and what is added to them is positive; so they
stay numbers, even where a sum is too great for a finite one, and any two of them can be compared.
-/

namespace Deliberation.Words

open Binary64

/-- A number that words can have gathered: zero, or a positive one. -/
def IsSum (x : Float) : Prop := x = 0 ∨ 0 < x

variable {x y : Float} {numbers : List Float}

theorem IsSum.add_of_isZero (hx : IsSum x) (hy : IsZero y) : x + y = x := by
  rcases hx with rfl | hx
  · exact zero_add_of_isZero hy
  · exact Binary64.add_of_isZero hx hy

/-- A sum with a positive number is positive. -/
theorem IsSum.add_pos (hx : IsSum x) (hy : 0 < y) : 0 < x + y := by
  rcases hx with rfl | hx
  · rwa [zero_add_of_pos hy]
  · exact Binary64.add_pos hx hy

/-- Sums stay sums when a number that is not negative is added. -/
theorem IsSum.add (hx : IsSum x) (hy : IsNonneg y) : IsSum (x + y) := by
  rcases hy with hzero | hpos
  · rwa [hx.add_of_isZero hzero]
  · exact Or.inr (hx.add_pos hpos)

theorem IsSum.add_pos_iff (hx : IsSum x) (hy : IsNonneg y) : 0 < x + y ↔ 0 < x ∨ 0 < y := by
  rcases hy with hzero | hpos
  · rw [hx.add_of_isZero hzero, or_iff_left hzero.not_pos]
  · exact iff_of_true (hx.add_pos hpos) (Or.inr hpos)

/-- However many numbers are added, what has been gathered is a sum: positive as soon as one of them
was. -/
theorem IsSum.foldl_add (hx : IsSum x) (hnumbers : ∀ y ∈ numbers, IsNonneg y) :
    IsSum (numbers.foldl (· + ·) x) ∧
      (0 < numbers.foldl (· + ·) x ↔ 0 < x ∨ ∃ y ∈ numbers, 0 < y) := by
  induction numbers generalizing x with
  | nil => simpa using hx
  | cons y rest ih =>
    rw [List.forall_mem_cons] at hnumbers
    obtain ⟨hsum, hpos⟩ := ih (hx.add hnumbers.1) hnumbers.2
    refine ⟨hsum, hpos.trans ?_⟩
    rw [hx.add_pos_iff hnumbers.1, List.exists_mem_cons_iff, or_assoc]

theorem IsSum.foldl_add_of_isZero (hx : IsSum x) (hnumbers : ∀ y ∈ numbers, IsZero y) :
    numbers.foldl (· + ·) x = x := by
  induction numbers with
  | nil => rfl
  | cons y rest ih =>
    rw [List.forall_mem_cons] at hnumbers
    rw [List.foldl_cons, hx.add_of_isZero hnumbers.1, ih hnumbers.2]

namespace Weight

theorem toFloat_ofFloat (x : Float) : (ofFloat x).toFloat = x := Float.ofBits_toBits x

theorem isNaN_ofFloat (hx : IsSum x) : (ofFloat x).isNaN = false := by
  rcases hx with rfl | hx
  · rfl
  · rw [isNaN, Bool.and_eq_false_iff, beq_eq_false_iff_ne, bne_eq_false_iff_eq]
    exact Classical.or_iff_not_imp_left.mpr fun hexponent => isNumber_of_pos hx
      (not_not.mp hexponent)

theorem add_ofFloat (hx : IsSum x) (hy : 0 < y) :
    (ofFloat x).add (ofFloat y) = ofFloat (x + y) := by
  rw [add, isNaN_ofFloat hx, isNaN_ofFloat (Or.inr hy), toFloat_ofFloat, toFloat_ofFloat]
  rfl

/-- Weights of positive numbers are added up as the numbers are. -/
theorem foldl_add_ofFloat (hx : IsSum x) (hpos : ∀ y ∈ numbers, 0 < y) :
    (numbers.map ofFloat).foldl add (ofFloat x) = ofFloat (numbers.foldl (· + ·) x) := by
  induction numbers generalizing x with
  | nil => rfl
  | cons y rest ih =>
    rw [List.forall_mem_cons] at hpos
    rw [List.map_cons, List.foldl_cons, add_ofFloat hx hpos.1,
      ih (Or.inr (hx.add_pos hpos.1)) hpos.2, List.foldl_cons]

/-- A weight that settings can have counts exactly if it is positive. -/
theorem counts_ofFloat (h : IsNonneg x) : (ofFloat x).counts ↔ 0 < x := by
  rw [counts, toFloat_ofFloat, Bool.not_eq_true', decide_eq_false_iff_not]
  rcases h with hzero | hpos
  · exact iff_of_false (not_not.mpr hzero.le_zero) hzero.not_pos
  · exact iff_of_true (not_le_zero_of_pos hpos) hpos

end Weight

end Deliberation.Words
