import Deliberation.Id
import Deliberation.Named
import Deliberation.Timestamp

/-!
Ideas: the nodes of a discussion's graph.
-/

namespace Deliberation

/-- The root idea stands for the discussion as a whole, and so for every post of it. -/
inductive IdeaKind where
  | idea
  | root
deriving DecidableEq, Repr

instance : Named IdeaKind where
  all := [.idea, .root]
  name
    | .idea => "idea"
    | .root => "root_idea"

structure Idea where
  id : Id
  discussion : Id
  kind : IdeaKind
  shortTitle : Option String
  longTitle : Option String
  definition : Option String
  hidden : Bool
  created : Timestamp
  modified : Timestamp
  /-- When the idea was deleted. A live idea has no tombstone. -/
  tombstone : Option Timestamp
  /-- Counts the modifications, starting at one. -/
  version : Nat
deriving DecidableEq, Repr

namespace Idea

def isRoot (idea : Idea) : Bool := idea.kind == .root

def isTombstone (idea : Idea) : Bool := idea.tombstone.isSome

def isLive (idea : Idea) : Bool := idea.tombstone.isNone

end Idea

structure NewIdea where
  discussion : Id
  kind : IdeaKind := .idea
  shortTitle : Option String := none
  longTitle : Option String := none
  definition : Option String := none
  hidden : Bool := false
deriving DecidableEq, Repr

structure IdeaPatch where
  shortTitle : Option String := none
  longTitle : Option String := none
  definition : Option String := none
  hidden : Option Bool := none
deriving DecidableEq, Repr

end Deliberation
