import Deliberation.Error

/-!
Tables: rows numbered from one in the order of their creation. A row is never removed, so a number
once given is given for good.
-/

namespace Deliberation.Store

structure Table (ρ : Type) where
  rows : List ρ := []

namespace Table

variable {ρ : Type}

def size (table : Table ρ) : Nat := table.rows.length

def nextId (table : Table ρ) : Id := table.size + 1

def get? (table : Table ρ) (id : Id) : Option ρ :=
  if 1 ≤ id then table.rows[(id - 1).toNat]? else none

def entries (table : Table ρ) : List (Id × ρ) :=
  table.rows.zipIdx.map fun (row, place) => ((place : Id) + 1, row)

/-- The most rows that a table can have: one for each positive id. -/
def capacity : Nat := Id.greatest.toNat

/-- The table with one more row. A table is full when the numbers run out. -/
def insert (table : Table ρ) (row : ρ) : Except DatabaseFault (Id × Table ρ) :=
  if table.size < capacity then .ok (table.nextId, ⟨table.rows ++ [row]⟩)
  else .error .full

/-- The table with one row changed; nothing changes if there is no such row. -/
def update (table : Table ρ) (id : Id) (change : ρ → ρ) : Table ρ :=
  if 1 ≤ id then ⟨table.rows.modify (id - 1).toNat change⟩ else table

def mapRows (table : Table ρ) (change : ρ → ρ) : Table ρ := ⟨table.rows.map change⟩

end Table

end Deliberation.Store
