/-!
Finite vocabularies: types whose values are known by fixed names, in data documents, in the database
and in messages alike.
-/

namespace Deliberation

class Named (α : Type) where
  all : List α
  name : α → String

namespace Named

variable {α : Type} [Named α]

/-- The value that a name stands for. Names are told apart exactly, letter case included. -/
def ofName? (text : String) : Option α :=
  (all : List α).find? fun a => name a == text

end Named

end Deliberation
