import Deliberation.Store.Basic

/-!
Reading rows. The columns of a row are read from left to right, and the first one that means nothing
is named by its place. A row that does not exist is no failure.
-/

namespace Deliberation.Store

def readDate (column : Nat) (cell : Cell Timestamp) : Except DatabaseFault Timestamp :=
  cell.read fun _ => .badDate column

def DiscussionRow.read (id : Id) (row : DiscussionRow) : Except DatabaseFault Discussion := do
  let created ← readDate 4 row.created
  let locales ← row.locales.read fun _ => .badLocales
  return ⟨id, row.slug, row.topic, locales, created⟩

def IdeaRow.read (id : Id) (row : IdeaRow) : Except DatabaseFault Idea := do
  let kind ← row.kind.read (.unknownName 2)
  let created ← readDate 7 row.created
  let modified ← readDate 8 row.modified
  let tombstone ← row.tombstone.mapM (readDate 9)
  let version ← row.version.read 10
  return {
    id := id
    discussion := row.discussion
    kind := kind
    shortTitle := row.shortTitle
    longTitle := row.longTitle
    definition := row.definition
    hidden := row.hidden
    created := created
    modified := modified
    tombstone := tombstone
    version := version }

def LinkRow.read (id : Id) (row : LinkRow) : Except DatabaseFault Link := do
  let created ← readDate 5 row.created
  let tombstone ← row.tombstone.mapM (readDate 6)
  return {
    id := id
    source := row.source
    target := row.target
    order := row.order
    type := row.type
    created := created
    tombstone := tombstone }

def PostRow.read (id : Id) (row : PostRow) : Except DatabaseFault Post := do
  let kind ← row.kind.read (.unknownName 2)
  let created ← readDate 9 row.created
  return {
    id := id
    discussion := row.discussion
    kind := kind
    creator := row.creator
    parent := row.parent
    ancestry := row.ancestry
    subject := row.subject
    body := row.body
    hidden := row.hidden
    created := created }

/-- The answer of the database, whose faults are failures of the store. -/
def answer {α : Type} : Except DatabaseFault α → Except Error α
  | .ok a => .ok a
  | .error fault => .error (.database fault)

def find {ρ α : Type} (table : Table ρ) (read : Id → ρ → Except DatabaseFault α) (id : Id) :
    Except Error (Option α) :=
  answer ((table.get? id).mapM (read id))

def readAll {ρ α : Type} (read : Id → ρ → Except DatabaseFault α) (entries : List (Id × ρ)) :
    Except Error (List α) :=
  answer (entries.mapM fun entry => read entry.1 entry.2)

def findDiscussion (store : Store) : Id → Except Error (Option Discussion) :=
  find store.discussions DiscussionRow.read

def findIdea (store : Store) : Id → Except Error (Option Idea) :=
  find store.ideas IdeaRow.read

def findLink (store : Store) : Id → Except Error (Option Link) :=
  find store.links LinkRow.read

def findPost (store : Store) : Id → Except Error (Option Post) :=
  find store.posts PostRow.read

def findLiveIdea (store : Store) (id : Id) : Except Error (Option Idea) := do
  return (← store.findIdea id).filter Idea.isLive

/-- The row of the root idea of a discussion: one that has not been deleted. -/
def rootEntry? (store : Store) (discussion : Id) : Option (Id × IdeaRow) :=
  store.ideas.entries.find? fun entry =>
    entry.2.discussion == discussion && entry.2.kind == .legible .root && entry.2.isLive

def findRoot (store : Store) (discussion : Id) : Except Error (Option Idea) :=
  answer ((store.rootEntry? discussion).mapM fun entry => entry.2.read entry.1)

/-- The posts with the given ids, by id. Ids of no post are passed over. -/
def findPosts (store : Store) (ids : List Id) : Except Error (List Post) :=
  readAll PostRow.read (store.posts.entries.filter fun entry => ids.contains entry.1)

/-- The ideas of a discussion that have not been deleted, by id. -/
def discussionIdeas (store : Store) (discussion : Id) : Except Error (List Idea) :=
  readAll IdeaRow.read (store.ideas.entries.filter fun entry =>
    entry.2.discussion == discussion && entry.2.isLive)

/-- Whether the idea belongs to a discussion, and has not been deleted. -/
def isLiveIdeaOf (store : Store) (discussion id : Id) : Bool :=
  match store.ideas.get? id with
  | some row => row.isLive && row.discussion == discussion
  | none => false

/-- The links of a discussion, by id: those that have not been removed, from an idea of the
discussion to any idea, neither of them deleted. -/
def discussionLinks (store : Store) (discussion : Id) : Except Error (List Link) :=
  readAll LinkRow.read (store.liveLinks.filter fun entry =>
    store.isLiveIdeaOf discussion entry.2.source && store.isLiveIdea entry.2.target)

end Deliberation.Store
