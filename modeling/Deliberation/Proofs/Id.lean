import Deliberation.Proofs.Numeral
import Deliberation.Id
import Mathlib.Data.List.Nodup

/-!
Texts of ids, which can be read again, and ascending lists of ids. An ascending list has the members
of the list that it is made of, each once and in order, so two of them with the same members are the
same list.
-/

namespace Deliberation

namespace Id

theorem toList_text (id : Id) : id.text.toList =
    if 0 ≤ id then Nat.toDigits 10 id.toNat else '-' :: Nat.toDigits 10 (-id).toNat := by
  change (Int.repr id).toList = _
  rw [Int.repr_eq_if]
  split
  · exact Nat.toList_repr
  · rw [String.toList_append, Nat.toList_repr]
    rfl

/-- The text of an id consists of digits, with a minus in front if the id is negative. -/
theorem mem_text {id : Id} {c : Char} (h : c ∈ id.text.toList) : c.isDigit ∨ c = '-' := by
  rw [toList_text] at h
  split at h
  · exact Or.inl (Numeral.isDigit_of_mem_toDigits h)
  · rcases List.mem_cons.mp h with hminus | hdigits
    · exact Or.inr hminus
    · exact Or.inl (Numeral.isDigit_of_mem_toDigits hdigits)

/-- The text of an id is read as that id. -/
theorem int?_text (id : Id) : Numeral.int? id.text.toList = some id := by
  rw [toList_text]
  split
  · rename_i hpositive
    rw [Numeral.int?_of_digits fun _ => Numeral.isDigit_of_mem_toDigits, Numeral.nat?_toDigits]
    exact congrArg some (Int.toNat_of_nonneg hpositive)
  · rename_i hnegative
    have hopposite : ((-id).toNat : Int) = -id :=
      Int.toNat_of_nonneg (Int.neg_nonneg_of_nonpos (Int.le_of_lt (Int.not_le.mp hnegative)))
    rw [Numeral.int?, Numeral.nat?_toDigits]
    show some (-((-id).toNat : Int)) = some id
    rw [hopposite, Int.neg_neg]

/-- The text of an id within the range of ids is read as that id. -/
theorem ofChars?_text {id : Id} (h : id.InRange) : ofChars? id.text.toList = some id := by
  rw [ofChars?, int?_text, Option.filter_some, if_pos (decide_eq_true h)]

/-- Different ids are written differently. -/
theorem text_inj {id other : Id} : id.text = other.text ↔ id = other := by
  constructor
  · intro h
    apply Option.some.inj
    rw [← int?_text id, h, int?_text]
  · rintro rfl
    rfl

end Id

@[simp]
theorem mem_ascending {ids : List Id} {id : Id} : id ∈ ascending ids ↔ id ∈ ids := by
  unfold ascending
  rw [List.mem_eraseDups, List.mem_mergeSort]

/-- Erasing repetitions from a list in order leaves it in strict order. -/
theorem pairwise_lt_eraseDups {ids : List Id} (h : ids.Pairwise (· ≤ ·)) :
    ids.eraseDups.Pairwise (· < ·) := by
  match ids with
  | [] => exact List.Pairwise.nil
  | first :: rest =>
    obtain ⟨hfirst, hrest⟩ := List.pairwise_cons.mp h
    rw [List.eraseDups_cons, List.pairwise_cons]
    constructor
    · intro other hother
      rw [List.mem_eraseDups, List.mem_filter] at hother
      obtain ⟨hmem, hne⟩ := hother
      have hdistinct : other ≠ first := by simpa using hne
      exact Int.lt_iff_le_and_ne.mpr ⟨hfirst other hmem, hdistinct.symm⟩
    · exact pairwise_lt_eraseDups (hrest.sublist List.filter_sublist)
termination_by ids.length
decreasing_by
  exact Nat.lt_succ_of_le (List.length_filter_le _ _)

theorem ascending_pairwise (ids : List Id) : (ascending ids).Pairwise (· < ·) := by
  apply pairwise_lt_eraseDups
  have hsorted : (ids.mergeSort fun a b => decide (a ≤ b)).Pairwise
      fun a b => decide (a ≤ b) = true := by
    apply List.pairwise_mergeSort
    · intro a b c hab hbc
      simp only [decide_eq_true_eq] at hab hbc ⊢
      exact Int.le_trans hab hbc
    · intro a b
      simpa using Int.le_total a b
  exact hsorted.imp of_decide_eq_true

/-- Two lists in strict order that have the same members are the same list. -/
theorem eq_of_pairwise_lt {ids others : List Id} (hids : ids.Pairwise (· < ·))
    (hothers : others.Pairwise (· < ·)) (h : ∀ id, id ∈ ids ↔ id ∈ others) : ids = others := by
  refine List.Perm.eq_of_pairwise (fun a b _ _ hab hba => absurd hab (Int.lt_asymm hba))
    hids hothers ?_
  exact (List.perm_ext_iff_of_nodup (hids.imp Int.ne_of_lt) (hothers.imp Int.ne_of_lt)).mpr h

theorem ascending_congr {ids others : List Id} (h : ∀ id, id ∈ ids ↔ id ∈ others) :
    ascending ids = ascending others := by
  refine eq_of_pairwise_lt (ascending_pairwise ids) (ascending_pairwise others) fun id => ?_
  rw [mem_ascending, mem_ascending, h id]

end Deliberation
