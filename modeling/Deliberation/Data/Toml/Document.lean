import Deliberation.Data.Toml.Scalar
import Deliberation.Data.Toml.Table
import Deliberation.Data.Toml.Text

/-!
Data documents in the format TOML. A document is a row of lines; a line opens a table or sets a key
of the table that was opened last.
-/

namespace Deliberation.Toml

open Reader

def comment : Reader Unit := do
  char '#'
  let _ ← run isPlain

def gap : Reader Unit := do
  let _ ← many (either ((fun _ => ()) <$> satisfying isBlank)
    (either ((fun _ => ()) <$> newline) comment))

def isBare (c : Char) : Bool :=
  c.isAlphanum || c == '_' || c == '-'

def bareKey : Reader (List Char) := do
  let key ← run isBare
  if key.isEmpty then refuse else pure key

def simpleKey : Reader String := do
  blanks
  let key ← either bareKey (either basicText literalText)
  blanks
  pure (String.ofList key)

def greatestKeyLength : Nat := 79

/-- Reads a key: the parts before the last one, and the last one. -/
def key : Reader (List String × String) := do
  let first ← simpleKey
  let more ← many do
    char '.'
    simpleKey
  if greatestKeyLength < more.length + 1 then refuse
  else match (first :: more).reverse with
    | last :: path => pure (path.reverse, last)
    | [] => refuse

def isScalar (c : Char) : Bool :=
  isBare c || c == '+' || c == '.' || c == ':'

/-- Reads an unquoted value. A date and a time may have one blank between them. -/
def scalar : Reader Data := do
  let first ← run isScalar
  if isDate first then
    match ← peek 2 with
    | [' ', c] =>
      if Numeral.isDecimal c then
        char ' '
        let time ← run isScalar
        ofOption (instant? (first ++ ' ' :: time))
      else ofOption (scalar? first)
    | _ => ofOption (scalar? first)
  else ofOption (scalar? first)

def item (value : Reader Data) : Reader Data := do
  gap
  let data ← value
  gap
  pure data

/-- Reads values with commas between them. A comma may follow the last one. -/
def items (value : Reader Data) : Reader (List Data) := do
  match ← maybe (item value) with
  | none => do
    gap
    pure []
  | some first => do
    let more ← many do
      char ','
      item value
    let _ ← maybe (char ',')
    gap
    pure (first :: more)

def pair (value : Reader Data) : Reader (List String × String × Data) := do
  let (path, name) ← key
  char '='
  blanks
  let data ← value
  pure (path, name, data)

def pairs (value : Reader Data) : Reader (List (List String × String × Data)) := do
  match ← maybe (pair value) with
  | none => pure []
  | some first => do
    blanks
    let more ← many do
      char ','
      let next ← pair value
      blanks
      pure next
    pure (first :: more)

def recordOf? (pairs : List (List String × String × Data)) : Option Data :=
  (pairs.foldlM (fun entries (path, name, data) => assign path name data .explicit entries) []).map
    Entries.toData

/-- The greatest depth of lists and tables on one line within each other. -/
def greatestDepth : Nat := 79

/-- Reads a value in which lists and tables nest at most `depth` deep. -/
def value : (depth : Nat) → Reader Data
  | 0 => do
    match ← peek 1 with
    | ['"'] | ['\''] => (fun cs => .text (String.ofList cs)) <$> text
    | _ => scalar
  | depth + 1 => do
    match ← peek 1 with
    | ['"'] | ['\''] => (fun cs => .text (String.ofList cs)) <$> text
    | ['['] => do
      char '['
      let data ← items (value depth)
      char ']'
      pure (.list data)
    | ['\x7b'] => do
      char '\x7b'
      blanks
      let data ← pairs (value depth)
      blanks
      char '\x7d'
      ofOption (recordOf? data)
    | _ => scalar

inductive Statement where
  | nothing
  | openTable (path : List String) (name : String)
  | openItem (path : List String) (name : String)
  | assign (path : List String) (name : String) (data : Data)

def header : Reader Statement := do
  char '['
  match ← peek 1 with
  | ['['] => do
    char '['
    let (path, name) ← key
    word [']', ']']
    pure (.openItem path name)
  | _ => do
    let (path, name) ← key
    char ']'
    pure (.openTable path name)

def line : Reader Statement := do
  blanks
  let statement ← match ← peek 1 with
    | ['['] => header
    | [c] =>
      if c = '#' ∨ c = '\n' ∨ c = '\r' then pure .nothing
      else (fun (path, name, data) => .assign path name data) <$> pair (value greatestDepth)
    | _ => pure .nothing
  blanks
  let _ ← maybe comment
  if ← atEnd then pure statement
  else do
    let _ ← newline
    pure statement

structure Progress where
  entries : Entries := []
  current : List String := []

def Progress.step (progress : Progress) : Statement → Option Progress
  | .nothing => some progress
  | .openTable path name =>
    (Toml.openTable path name .explicit progress.entries).map fun entries =>
      ⟨entries, path ++ [name]⟩
  | .openItem path name =>
    (Toml.openItem path name .explicit progress.entries).map fun entries =>
      ⟨entries, path ++ [name]⟩
  | .assign path name data =>
    (editAt .passing (Toml.assign path name data) progress.current .explicit progress.entries).map
      fun entries => ⟨entries, progress.current⟩

def withoutMark : List Char → List Char
  | c :: cs => if c.toNat = 0xFEFF then cs else c :: cs
  | [] => []

def read? (text : String) : Option Data := do
  let statements ← (many line).readAll? (withoutMark text.toList)
  let progress ← statements.foldlM Progress.step {}
  return progress.entries.toData

end Deliberation.Toml
