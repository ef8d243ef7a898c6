import Deliberation.Model.Discussion
import Deliberation.Model.Idea
import Deliberation.Model.Link
import Deliberation.Model.Post
import Deliberation.Store.Cell
import Deliberation.Store.Table
import Deliberation.Store.Version

/-!
The store: six tables, and which ideas are guarded against deletion. A row holds what its columns
hold; the number of a row is its place in the table.
-/

namespace Deliberation.Store

structure DiscussionRow where
  slug : String
  topic : String
  locales : Cell (List String)
  created : Cell Timestamp

structure IdeaRow where
  discussion : Id
  kind : Cell IdeaKind
  shortTitle : Option String
  longTitle : Option String
  definition : Option String
  hidden : Bool
  created : Cell Timestamp
  modified : Cell Timestamp
  tombstone : Option (Cell Timestamp) := none
  version : Version := .whole 1

structure LinkRow where
  source : Id
  target : Id
  order : Place
  type : String
  created : Cell Timestamp
  tombstone : Option (Cell Timestamp) := none

structure PostRow where
  discussion : Id
  kind : Cell PostKind
  creator : Id
  parent : Option Id
  ancestry : String
  subject : Option String
  body : Option String
  hidden : Bool
  created : Cell Timestamp

structure ContentRow where
  idea : Option Id
  post : Id
  kind : ContentKind
  important : Bool
  creator : Id
  created : Timestamp

structure ActionRow where
  kind : ActionKind
  actor : Id
  post : Id
  created : Timestamp
  tombstone : Option Timestamp := none

def IdeaRow.isLive (row : IdeaRow) : Bool := row.tombstone.isNone

def LinkRow.isLive (row : LinkRow) : Bool := row.tombstone.isNone

def ActionRow.isLive (row : ActionRow) : Bool := row.tombstone.isNone

end Deliberation.Store

namespace Deliberation

structure Store where
  discussions : Store.Table Store.DiscussionRow := {}
  ideas : Store.Table Store.IdeaRow := {}
  links : Store.Table Store.LinkRow := {}
  posts : Store.Table Store.PostRow := {}
  contents : Store.Table Store.ContentRow := {}
  actions : Store.Table Store.ActionRow := {}
  guarded : List Id := []

namespace Store

/-- Whether there is an idea with this id that has not been deleted. -/
def isLiveIdea (store : Store) (id : Id) : Bool :=
  match store.ideas.get? id with
  | some row => row.isLive
  | none => false

def liveLinks (store : Store) : List (Id × LinkRow) :=
  store.links.entries.filter fun entry => entry.2.isLive

end Store

end Deliberation
