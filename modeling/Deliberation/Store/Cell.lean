import Deliberation.Error

/-!
Cells: the columns of a stored row that hold their value as a text. Only what the engine itself
writes is known to be legible, so a cell keeps a text that means nothing as it is.
-/

namespace Deliberation.Store

inductive Cell (α : Type) where
  | legible (value : α)
  | illegible (text : String)
deriving DecidableEq, Repr

namespace Cell

variable {α : Type}

def ofText (read? : String → Option α) (text : String) : Cell α :=
  match read? text with
  | some value => .legible value
  | none => .illegible text

def read (fault : String → DatabaseFault) : Cell α → Except DatabaseFault α
  | .legible value => .ok value
  | .illegible text => .error (fault text)

def isLegible : Cell α → Bool
  | .legible _ => true
  | .illegible _ => false

end Cell

end Deliberation.Store
