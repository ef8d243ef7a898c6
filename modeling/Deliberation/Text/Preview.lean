import Deliberation.Text.Clean

/-!
Short previews of long texts: what fits into a fixed number of characters, cut between words.
-/

namespace Deliberation.Text

/-- The greatest number of characters of a preview, the closing space left aside. -/
def previewLength : Nat := 120

def dropTrailingBlanks (cs : List Char) : List Char :=
  (cs.reverse.dropWhile isBlank).reverse

def beforeLastSpace? (cs : List Char) : Option (List Char) :=
  match cs.reverse.dropWhile (· != ' ') with
  | [] => none
  | _ :: before => some before.reverse

/-- The part of `head` up to its last word break; all of it when there is no word in front of a
break. -/
def cutAtWord (head : List Char) : List Char :=
  match beforeLastSpace? head with
  | none => head
  | some before =>
    let kept := dropTrailingBlanks before
    if kept.isEmpty then head else kept

/-- The preview of plain text. A shortened preview ends with a space. -/
def previewChars (cs : List Char) : List Char :=
  if cs.length ≤ previewLength then cs
  else cutAtWord (cs.take previewLength) ++ [' ']

def preview (text : String) : String :=
  String.ofList (previewChars (cleanChars text.toList))

end Deliberation.Text
