import Deliberation.Id

/-!
What the store reports about itself: committed changes of ideas, and figures over posts.
-/

namespace Deliberation

inductive Change where
  | created (idea : Id)
  | modified (idea : Id) (version : Nat)
  | deleted (idea : Id)
deriving DecidableEq, Repr

def Change.idea : Change → Id
  | .created idea => idea
  | .modified idea _ => idea
  | .deleted idea => idea

structure PostCounts where
  total : Nat := 0
  read : Nat := 0
deriving DecidableEq, Repr

structure Contribution where
  agent : Id
  /-- Distinct pivots with a post of the author below them; distinct extracts in a synthesis. -/
  pivots : Nat
  posts : Nat
  /-- The smallest id among those posts. -/
  firstPost : Id
deriving DecidableEq, Repr

end Deliberation
