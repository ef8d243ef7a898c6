import Deliberation.Model.Place
import Deliberation.Timestamp

/-!
Links between ideas: directed edges from a parent to a child, each with the place that the child
takes among its siblings.
-/

namespace Deliberation

def inclusionType : String := "idea:InclusionRelation"

structure Link where
  id : Id
  /-- The parent. -/
  source : Id
  /-- The child. -/
  target : Id
  order : Place
  type : String
  created : Timestamp
  tombstone : Option Timestamp
deriving DecidableEq, Repr

def Link.isTombstone (link : Link) : Bool := link.tombstone.isSome

structure NewLink where
  source : Id
  target : Id
  order : Place := .zero
  type : String := inclusionType
deriving DecidableEq, Repr

inductive Direction where
  /-- From parents to children, towards descendants. -/
  | forward
  /-- From children to parents, towards ancestors. -/
  | backward
deriving DecidableEq, Repr

end Deliberation
