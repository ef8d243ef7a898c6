import Deliberation.Closure.Edges
import Deliberation.Journal
import Deliberation.Store.Adjacency

/-!
Ancestors and descendants in the store. Both strategies find the same ideas; the native one looks
upward from one idea at a time only.
-/

namespace Deliberation

def Store.neighbors (store : Store) (ids : List Id) (direction : Direction) : List Id :=
  Closure.neighbors (store.edges direction) ids

/-- The ids in `found`, and those of `roots` if the closure is to include them. -/
def Closure.including (inclusive : Bool) (roots found : List Id) : List Id :=
  ascending (if inclusive then found ++ roots else found)

def Store.nativeClosure (store : Store) (root : Id) (direction : Direction) (inclusive : Bool) :
    List Id :=
  Closure.including inclusive [root] (Closure.native (store.edges direction) root)

def Store.closure (store : Store) (root : Id) (direction : Direction) (inclusive : Bool) :
    Traced (List Id) := do
  let reached := store.nativeClosure root direction inclusive
  .note (.nativeClosure root direction inclusive reached.length)
  return reached

/-- What can be reached from some ideas, found by rounds and logged. -/
def Store.expansion (store : Store) (roots : List Id) (direction : Direction) (inclusive : Bool) :
    Traced (List Id) := do
  let expansion := Closure.byRounds (store.edges direction) roots
  let reached := Closure.including inclusive roots expansion.reached
  .note (.fixedPointClosure roots.length expansion.rounds reached.length)
  return reached

namespace ClosureStrategy

def looksFromMany : ClosureStrategy → Bool
  | .native => false
  | .fixedPoint => true

def descendants (strategy : ClosureStrategy) (store : Store) (root : Id) (inclusive : Bool) :
    Traced (List Id) :=
  .within (.closure .forward strategy) <|
    match strategy with
    | .native => store.closure root .forward inclusive
    | .fixedPoint => store.expansion [root] .forward inclusive

def ancestors (strategy : ClosureStrategy) (store : Store) (targets : List Id) (inclusive : Bool) :
    Traced (List Id) :=
  .within (.closure .backward strategy) <|
    match strategy, targets with
    | .native, [] => return []
    | .native, [target] => store.closure target .backward inclusive
    | .native, _ => .ofExcept (.error (.unsupported "ancestors"
        ("native closure resolves one target at a time, got " ++ toString targets.length)))
    | .fixedPoint, _ => store.expansion targets .backward inclusive

end ClosureStrategy

end Deliberation
