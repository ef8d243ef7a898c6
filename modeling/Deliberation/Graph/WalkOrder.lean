import Deliberation.Named

/-!
The two orders in which a graph can be walked.
-/

namespace Deliberation

inductive WalkOrder where
  /-- Everything below a child is visited before the next child. -/
  | depthFirst
  /-- All children of an idea are visited before anything below them. -/
  | breadthFirst
deriving DecidableEq, Repr

instance : Named WalkOrder where
  all := [.depthFirst, .breadthFirst]
  name
    | .depthFirst => "depth_first"
    | .breadthFirst => "breadth_first"

end Deliberation
