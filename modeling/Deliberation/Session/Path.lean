/-!
Paths through directories, and where a new file can be made.
-/

namespace Deliberation

structure Path where
  rooted : Bool
  names : List String
deriving DecidableEq, Repr

inductive Occupant where
  | directory
  | document
  | device
deriving DecidableEq, Repr

namespace Path

def step (names : List String) (name : String) : List String :=
  if name = "" ∨ name = "." then names
  else if name = ".." then names.dropLast
  else names ++ [name]

def ofText (text : String) : Path :=
  ⟨text.toList.head? == some '/', (text.splitOn "/").foldl step []⟩

def text (path : Path) : String :=
  (if path.rooted then "/" else "") ++ "/".intercalate path.names

def directory (path : Path) : Path := { path with names := path.names.dropLast }

def longestName : Nat := 255

def longestPath : Nat := 511

/-- Whether neither the path nor a name on it is too long. -/
def fits (path : Path) : Bool :=
  path.names.all (·.utf8ByteSize ≤ longestName) && path.text.utf8ByteSize ≤ longestPath

/-- Whether a file can be made at a path: nothing is there, and its directory is. -/
def isFree (occupant? : Path → Option Occupant) (path : Path) : Bool :=
  path.fits && occupant? path == none && occupant? path.directory == some .directory

end Path

end Deliberation
