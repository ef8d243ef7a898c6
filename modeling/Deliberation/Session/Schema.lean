import Deliberation.Journal

/-!
Versions of the database's schema. Migrations lead from one version to the next.
-/

namespace Deliberation.Schema

def current : Nat := 2

def migrations : List (Nat × String) := [(1, "idea_graph"), (2, "content")]

def readVersion (version : Int) : Except Error Nat :=
  if 0 ≤ version then .ok version.toNat else .error (.database (.outOfRange 0 version))

def pending (version : Nat) : List (Nat × String) :=
  migrations.filter fun migration => version < migration.1

/-- Brings a database up to date, and tells the version that it then has. A newer database is
refused. -/
def migrate (version : Int) : Traced Nat :=
  match readVersion version with
  | .error e => .ofExcept (.error e)
  | .ok known =>
    if current < known then
      .ofExcept (.error (.migration known
        ("database is newer than supported version " ++ toString current)))
    else
      ⟨(pending known).map fun (version, name) => ⟨[], .migrationApplied version name⟩, .ok current⟩

/-- A version that a database can say: a whole number of 32 bits. Any other number says zero. -/
def storedVersion (version : Int) : Int :=
  if -2147483648 ≤ version ∧ version < 2147483648 then version else 0

end Deliberation.Schema
