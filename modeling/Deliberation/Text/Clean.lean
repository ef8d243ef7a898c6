import Deliberation.Numeral
import Deliberation.Text.Blank
import Deliberation.Text.Runs

/-!
Plain text from marked-up text: a tag becomes a word break, a character reference becomes its
character, and runs of blanks become one space.
-/

namespace Deliberation.Text

def afterTag? : List Char → Option (List Char)
  | [] => none
  | c :: cs => if c = '>' then some cs else afterTag? cs

theorem length_lt_of_afterTag? {cs rest : List Char} (h : afterTag? cs = some rest) :
    rest.length < cs.length := by
  induction cs with
  | nil => simp [afterTag?] at h
  | cons c cs ih =>
    rw [afterTag?] at h
    split at h
    · injection h with h
      subst h
      exact Nat.lt_succ_self _
    · exact Nat.lt_succ_of_lt (ih h)

/-- Every tag, from `<` to the next `>`, replaced by a space. A `<` that no `>` follows stays. -/
def blankTags : List Char → List Char
  | [] => []
  | c :: cs =>
    if c = '<' then
      match _h : afterTag? cs with
      | some rest => ' ' :: blankTags rest
      | none => c :: blankTags cs
    else c :: blankTags cs
termination_by cs => cs.length
decreasing_by
  · exact Nat.lt_succ_of_lt (length_lt_of_afterTag? _h)
  · exact Nat.lt_succ_self _
  · exact Nat.lt_succ_self _

/-- The character with code point `n`; none for surrogates and for numbers past the last code
point. -/
def ofCodePoint? (n : Nat) : Option Char :=
  if n.isValidChar then some (Char.ofNat n) else none

def namedReferences : List (String × Char) :=
  [("amp", '&'), ("lt", '<'), ("gt", '>'), ("quot", '"'), ("apos", '\''), ("nbsp", ' ')]

/-- The character that a reference stands for, given what it says between `&` and `;`. -/
def referenced? : List Char → Option Char
  | '#' :: 'x' :: digits => (Numeral.nat? 16 digits).bind ofCodePoint?
  | '#' :: 'X' :: digits => (Numeral.nat? 16 digits).bind ofCodePoint?
  | '#' :: digits => (Numeral.nat? 10 digits).bind ofCodePoint?
  | name => namedReferences.lookup (String.ofList name)

/-- Reads the rest of a reference whose `&` has been read: its character and what follows its
`;`. -/
def reference? (cs : List Char) : Option (Char × List Char) :=
  match cs.dropWhile (· != ';') with
  | [] => none
  | _ :: rest => (referenced? (cs.takeWhile (· != ';'))).map fun c => (c, rest)

theorem length_lt_of_reference? {cs rest : List Char} {c : Char}
    (h : reference? cs = some (c, rest)) : rest.length < cs.length := by
  unfold reference? at h
  split at h
  · simp at h
  · next d tail hdrop =>
    obtain ⟨_, _, heq⟩ := Option.map_eq_some_iff.1 h
    injection heq with _ htail
    subst htail
    have hle := (List.dropWhile_sublist (l := cs) (fun c => c != ';')).length_le
    rw [hdrop] at hle
    exact hle

/-- Every reference that stands for a character replaced by it, once. -/
def decodeReferences : List Char → List Char
  | [] => []
  | c :: cs =>
    if c = '&' then
      match _h : reference? cs with
      | some (d, rest) => d :: decodeReferences rest
      | none => c :: decodeReferences cs
    else c :: decodeReferences cs
termination_by cs => cs.length
decreasing_by
  · exact Nat.lt_succ_of_lt (length_lt_of_reference? _h)
  · exact Nat.lt_succ_self _
  · exact Nat.lt_succ_self _

/-- The words of `cs` between blanks, with one space between two of them. -/
def collapseBlanks (cs : List Char) : List Char :=
  [' '].intercalate (runs (fun c => !isBlank c) cs)

def cleanChars (cs : List Char) : List Char :=
  collapseBlanks (decodeReferences (blankTags cs))

def clean (text : String) : String :=
  String.ofList (cleanChars text.toList)

end Deliberation.Text
