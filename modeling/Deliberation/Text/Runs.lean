/-!
Cutting a list into its maximal runs of elements of one sort.
-/

namespace Deliberation.Text

variable {α : Type}

/-- The maximal runs of elements with property `p`, in order; all other elements are dropped. -/
def runs (p : α → Bool) : List α → List (List α)
  | [] => []
  | a :: rest =>
    if p a then (a :: rest.takeWhile p) :: runs p (rest.dropWhile p) else runs p rest
termination_by list => list.length
decreasing_by
  · exact Nat.lt_succ_of_le ((List.dropWhile_sublist p).length_le)
  · exact Nat.lt_succ_self _

@[simp] theorem runs_nil (p : α → Bool) : runs p [] = [] := by
  simp [runs]

theorem runs_cons_of_neg {p : α → Bool} {a : α} (h : p a = false) (rest : List α) :
    runs p (a :: rest) = runs p rest := by
  rw [runs]; simp [h]

theorem runs_cons_of_pos {p : α → Bool} {a : α} (h : p a = true) (rest : List α) :
    runs p (a :: rest) = (a :: rest.takeWhile p) :: runs p (rest.dropWhile p) := by
  rw [runs]; simp [h]

end Deliberation.Text
