import Deliberation.Numeral

/-!
Identifiers of rows and agents: whole numbers of the signed 64-bit range, with their decimal text.
-/

namespace Deliberation

abbrev Id := Int

namespace Id

def least : Id := -9223372036854775808

/-- The largest identifier, which also bounds the number of rows of a table. -/
def greatest : Id := 9223372036854775807

def InRange (id : Id) : Prop := least ≤ id ∧ id ≤ greatest

instance (id : Id) : Decidable id.InRange := inferInstanceAs (Decidable (_ ∧ _))

/-- The identifier with the other sign; the smallest one has no counterpart and stays. -/
def opposite (id : Id) : Id := if id = least then least else -id

def text (id : Id) : String := toString id

/-- The identifier that `cs` writes in decimal: a sign is allowed, a number out of range is
refused. -/
def ofChars? (cs : List Char) : Option Id :=
  (Numeral.int? cs).filter fun n => decide (InRange n)

end Id

/-- Ascending order of identifiers, without repetitions: the form in which sets of identifiers are
kept. -/
def ascending (ids : List Id) : List Id :=
  (ids.mergeSort fun a b => decide (a ≤ b)).eraseDups

end Deliberation
