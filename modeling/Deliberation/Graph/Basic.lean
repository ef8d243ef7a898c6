import Deliberation.Model.Idea
import Deliberation.Model.Link

/-!
The graph of a discussion in memory: its live ideas as nodes and its live links as edges. Parallel
links are kept. Where an id is used twice, both ideas are nodes, and the id stands for the last of
them.
-/

namespace Deliberation

structure Graph.Edge (n : Nat) where
  source : Fin n
  target : Fin n
  link : Id
  order : Place
deriving Repr

structure Graph where
  ideas : List Idea
  edges : List (Graph.Edge ideas.length)

namespace Graph

abbrev Node (graph : Graph) := Fin graph.ideas.length

def idea (graph : Graph) (node : graph.Node) : Idea := graph.ideas.get node

def nodes (graph : Graph) : List graph.Node := List.finRange graph.ideas.length

/-- The last place in a list of ideas that has a given id. -/
def place? : (ideas : List Idea) → (id : Id) → Option (Fin ideas.length)
  | [], _ => none
  | idea :: rest, id =>
    match place? rest id with
    | some place => some place.succ
    | none => if idea.id == id then some ⟨0, Nat.succ_pos _⟩ else none

def node? (graph : Graph) (id : Id) : Option graph.Node := place? graph.ideas id

/-- The edge of a link whose ends are both among the ideas. -/
def edgeOf? (ideas : List Idea) (link : Link) : Option (Edge ideas.length) := do
  let source ← place? ideas link.source
  let target ← place? ideas link.target
  return ⟨source, target, link.id, link.order⟩

/-- The graph of some ideas and links. Deleted ideas, removed links and links that lead elsewhere
are left out. -/
def ofParts (ideas : List Idea) (links : List Link) : Graph :=
  let live := ideas.filter Idea.isLive
  ⟨live, (links.filter fun link => !link.isTombstone).filterMap (edgeOf? live)⟩

def ideaCount (graph : Graph) : Nat := graph.ideas.length

def linkCount (graph : Graph) : Nat := graph.edges.length

/-- Whether `a` may stand before `b` among the edges to children: by order, then by link. -/
def Edge.isChildOrder {n : Nat} (a b : Edge n) : Bool :=
  a.order.isBefore a.link b.order b.link

/-- The children of a node in their order, one for each link. Of edges that are alike in everything
the later one comes first. -/
def children (graph : Graph) (node : graph.Node) : List graph.Node :=
  ((graph.edges.reverse.filter fun edge => edge.source == node).mergeSort Edge.isChildOrder).map
    (·.target)

/-- The parents of a node by link, one for each link. Of edges that are alike the later one comes
first. -/
def parents (graph : Graph) (node : graph.Node) : List graph.Node :=
  ((graph.edges.reverse.filter fun edge => edge.target == node).mergeSort
    fun a b => decide (a.link ≤ b.link)).map (·.source)

end Graph

end Deliberation
