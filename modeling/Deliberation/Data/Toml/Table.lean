import Deliberation.Data.Basic

/-!
Tables of the format TOML under construction. A table can be written in several places of a
document, and the rules say which of them may add to it; so each table remembers how it came about.
-/

namespace Deliberation.Toml

inductive Origin where
  /-- By a header of its own, or as a value. -/
  | explicit
  /-- On the way to a table below it. -/
  | passing
  /-- On the way to a key below it. -/
  | dotted
deriving DecidableEq

inductive Node where
  | value (data : Data)
  | table (origin : Origin) (entries : List (String × Node))
  /-- Tables in a row, the last one first. -/
  | tables (items : List (List (String × Node)))

abbrev Entries := List (String × Node)

/-- `entries` with `node` under `key`, in the place of what the key named before. -/
def Entries.put (key : String) (node : Node) : Entries → Entries
  | [] => [(key, node)]
  | (known, old) :: rest =>
    if known = key then (known, node) :: rest else (known, old) :: Entries.put key node rest

/-- A change of the table that a path leads to, given how that table came about. -/
abbrev Edit := Origin → Entries → Option Entries

/-- Changes the table that `path` leads to. Missing tables on the way are made with the origin
`made`. A key cannot lead through a value. A dotted path cannot lead into a table that has a header
of its own. -/
def editAt (made : Origin) (edit : Edit) : List String → Edit
  | [], origin, entries => edit origin entries
  | key :: path, _, entries =>
    match entries.lookup key with
    | none => (editAt made edit path made []).map fun inner => Entries.put key
        (.table made inner) entries
    | some (.value _) => none
    | some (.table origin inner) =>
      if made = .dotted ∧ origin = .explicit then none
      else (editAt made edit path origin inner).map fun inner =>
        Entries.put key (.table origin inner) entries
    | some (.tables []) => none
    | some (.tables (last :: earlier)) =>
      (editAt made edit path .explicit last).map fun last =>
        Entries.put key (.tables (last :: earlier)) entries

/-- Sets a key. The key must be new; a table that a dotted path leads to must have come about by
one. -/
def assign (path : List String) (key : String) (data : Data) : Edit :=
  editAt .dotted (fun origin entries =>
    if decide (origin = .dotted) == path.isEmpty then none
    else match entries.lookup key with
      | some _ => none
      | none => some (Entries.put key (.value data) entries)) path

/-- Opens a table by its header. Only a table that was passed through before may exist already. -/
def openTable (path : List String) (key : String) : Edit :=
  editAt .passing (fun _ entries =>
    match entries.lookup key with
    | none => some (Entries.put key (.table .explicit []) entries)
    | some (.table .passing inner) => some (Entries.put key (.table .explicit inner) entries)
    | some _ => none) path

def openItem (path : List String) (key : String) : Edit :=
  editAt .passing (fun _ entries =>
    match entries.lookup key with
    | none => some (Entries.put key (.tables [[]]) entries)
    | some (.tables items) => some (Entries.put key (.tables ([] :: items)) entries)
    | some _ => none) path

mutual

def Node.toData : Node → Data
  | .value data => data
  | .table _ entries => .record (entriesToFields entries)
  | .tables items => .list (itemsToData items).reverse

def entriesToFields : List (String × Node) → List (String × Data)
  | [] => []
  | (key, node) :: rest => (key, node.toData) :: entriesToFields rest

/-- The tables of a row, the last one first. -/
def itemsToData : List (List (String × Node)) → List Data
  | [] => []
  | entries :: rest => .record (entriesToFields entries) :: itemsToData rest

end

def Entries.toData (entries : Entries) : Data := .record (entriesToFields entries)

end Deliberation.Toml
