/-!
Sets of characters kept as ascending spans of code points.
-/

namespace Deliberation.Text

/-- Whether `n` lies in one of `spans`, which ascend and do not overlap. -/
def inSpans (n : Nat) : List (Nat × Nat) → Bool
  | [] => false
  | (first, last) :: rest => first ≤ n && (n ≤ last || inSpans n rest)

end Deliberation.Text
