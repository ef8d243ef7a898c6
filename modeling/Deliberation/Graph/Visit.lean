import Deliberation.Closure.Resolver
import Deliberation.Graph.Walk

/-!
Walks through the graph of a stored discussion. The whole discussion is loaded once, and then walked
from one of its ideas.
-/

namespace Deliberation

structure Journaled (σ : Type) where
  state : σ
  entries : List Entry := []

namespace Attempt

variable {σ α : Type}

def quiet (x : Attempt σ α) : Attempt (Journaled σ) α := fun journaled =>
  match x journaled.state with
  | (result, state) => (result, { journaled with state })

def traced (x : Traced α) : Attempt (Journaled σ) α := fun journaled =>
  (x.result, { journaled with entries := journaled.entries ++ x.entries })

end Attempt

def Visitor.quiet {σ ρ : Type} (visitor : Visitor σ ρ) : Visitor (Journaled σ) ρ where
  visit idea level above := (visitor.visit idea level above).quiet
  finish idea level own below := (visitor.finish idea level own below).quiet

namespace Store

def graph (store : Store) (discussion : Id) : Except Error Graph := do
  let ideas ← store.discussionIdeas discussion
  let links ← store.discussionLinks discussion
  return .ofParts ideas links

/-- The graph in which an idea is to be found; none if the idea does not exist or has been
deleted. -/
def graphAround (store : Store) (idea : Id) : Except Error (Option Graph) := do
  match ← store.findLiveIdea idea with
  | none => return none
  | some found => return some (← store.graph found.discussion)

/-- Walks through the discussion of an idea from that idea, with a visitor that starts from `state`.
Says what the idea came to, and the last state of the visitor. -/
def visit {σ ρ : Type} (store : Store) (root : Id) (order : WalkOrder)
    (visitor : Visitor (Journaled σ) ρ) (state : σ) : Traced (Option ρ) × σ :=
  match store.graphAround root with
  | .error e => (.ofExcept (.error e), state)
  | .ok none => (return none, state)
  | .ok (some graph) =>
    let loaded : Event := .snapshotLoaded graph.ideaCount graph.linkCount
    match graph.walk order visitor root ⟨state, [⟨[], loaded⟩]⟩ with
    | (result, after) => (.within (.traversal root order) ⟨after.entries, result⟩, after.state)

end Store

end Deliberation
