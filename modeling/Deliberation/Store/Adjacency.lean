import Deliberation.Store.Read

/-!
What is next to an idea. Only links that have not been removed and lead to ideas that have not been
deleted count; the idea that is asked about is not looked at itself.
-/

namespace Deliberation.Store

/-- Whether link `a` may stand before link `b` among the children of an idea: by order, then by
id. -/
def isChildOrder (a b : Id × LinkRow) : Bool :=
  a.2.order.isBefore a.1 b.2.order b.1

/-- The links to the children of an idea, in the order of the children. -/
def childLinks (store : Store) (idea : Id) : List (Id × LinkRow) :=
  (store.liveLinks.filter fun entry =>
    entry.2.source == idea && store.isLiveIdea entry.2.target).mergeSort isChildOrder

def parentLinks (store : Store) (idea : Id) : List (Id × LinkRow) :=
  store.liveLinks.filter fun entry => entry.2.target == idea && store.isLiveIdea entry.2.source

def ideaEntries (store : Store) (ids : List Id) : List (Id × IdeaRow) :=
  ids.filterMap fun id => (store.ideas.get? id).map fun row => (id, row)

def children (store : Store) (idea : Id) : Except Error (List Idea) :=
  readAll IdeaRow.read (store.ideaEntries ((store.childLinks idea).map (·.2.target)))

def parents (store : Store) (idea : Id) : Except Error (List Idea) :=
  readAll IdeaRow.read (store.ideaEntries ((store.parentLinks idea).map (·.2.source)))

def childCount (store : Store) (idea : Id) : Nat := (store.childLinks idea).length

def firstParentLink (store : Store) (idea : Id) : Except Error (Option Link) :=
  answer ((store.parentLinks idea).head?.mapM fun entry => entry.2.read entry.1)

/-- The ideas that share a parent with an idea, each once and without the idea itself: by parent,
and below one parent in the order of its children. -/
def siblings (store : Store) (idea : Id) : Except Error (List Idea) := do
  let families ← (← store.parents idea).mapM fun parent => store.children parent.id
  return families.flatten.foldl
    (fun found child =>
      if child.id = idea ∨ found.any (·.id = child.id) then found else found ++ [child]) []

/-- The ends of the links that can be followed in a direction: where they start, and where they
lead. -/
def edges (store : Store) (direction : Direction) : List (Id × Id) :=
  (store.liveLinks.map fun entry =>
    match direction with
    | .forward => (entry.2.source, entry.2.target)
    | .backward => (entry.2.target, entry.2.source)).filter fun edge => store.isLiveIdea edge.2

end Deliberation.Store
