/-!
Data documents: the values that texts in a data format denote, whatever the format.
-/

namespace Deliberation

inductive Data where
  | null
  | bool (value : Bool)
  | int (value : Int)
  | float (value : Float)
  | text (value : String)
  | list (items : List Data)
  /-- Named values in the order of the document; a name may occur again. -/
  | record (fields : List (String × Data))
  /-- A well-formed value that denotes nothing, such as a number past all floating numbers. It can
  be passed over, but not read. -/
  | unreadable
deriving Inhabited

namespace Data

/-- The value that a record holds last under `name`. -/
def get? (data : Data) (name : String) : Option Data :=
  match data with
  | .record fields => fields.reverse.lookup name
  | _ => none

/-- The value of an optional entry: absent and null mean the same. -/
def ofOption {α : Type} (encode : α → Data) : Option α → Data
  | none => .null
  | some a => encode a

def ofInts (numbers : List Int) : Data := .list (numbers.map .int)

def ofTexts (texts : List String) : Data := .list (texts.map .text)

end Data

end Deliberation
