import Deliberation.Text.Letter
import Deliberation.Text.LowerCase
import Deliberation.Text.Runs

/-!
The words of a text: its runs of letters, in lower case.
-/

namespace Deliberation.Text

/-- The words of `cs` that have at least `least` characters once they are in lower case. -/
def wordChars (least : Nat) (cs : List Char) : List (List Char) :=
  ((runs isLetter cs).map lowerWord).filter fun word => least ≤ word.length

def words (least : Nat) (text : String) : List String :=
  (wordChars least text.toList).map String.ofList

end Deliberation.Text
