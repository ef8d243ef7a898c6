import Deliberation.Data.Json
import Deliberation.Session.Basic

/-!
Maintenance of a database, and the damage that maintenance should find. Damage overwrites a single
column of a row without asking the engine. The database then holds no column to its vocabulary until
it is opened again.
-/

namespace Deliberation

inductive Column where
  | locales
  | discussionCreated
  | ideaCreated
  | ideaModified
  | ideaTombstone
  | ideaKind
  | ideaVersion
  | linkCreated
  | linkTombstone
  | postCreated
  | postKind
deriving DecidableEq, Repr

/-- The name of a column in the database, after that of its table. -/
def Column.text : Column → String
  | .locales => "discussion.locales"
  | .discussionCreated => "discussion.creation_date"
  | .ideaCreated => "idea.creation_date"
  | .ideaModified => "idea.last_modified"
  | .ideaTombstone => "idea.tombstone_date"
  | .ideaKind => "idea.kind"
  | .ideaVersion => "idea.version"
  | .linkCreated => "idea_idea_link.creation_date"
  | .linkTombstone => "idea_idea_link.tombstone_date"
  | .postCreated => "post.creation_date"
  | .postKind => "post.kind"

namespace Store

def dateCell (text : String) : Cell Timestamp := .ofText Timestamp.ofStored? text

def localesCell (text : String) : Cell (List String) :=
  .ofText (fun text => (Json.value? text).bind Data.texts?) text

def hasTwoRoots (store : Store) : Bool :=
  let roots := store.ideas.rows.filter fun row => row.kind == .legible .root && row.isLive
  let discussions := roots.map (·.discussion)
  discussions.eraseDups.length != discussions.length

/-- The store with one row of its ideas overwritten, if the database takes it. -/
def overwriteIdea (id : Id) (change : IdeaRow → IdeaRow) (store : Store) :
    Except DatabaseFault Store :=
  let changed := { store with ideas := store.ideas.update id change }
  if changed.hasTwoRoots then .error (.notUnique "idea.discussion_id") else .ok changed

/-- The store with a text written into a column of the row with an id. -/
def overwrite (store : Store) (id : Id) (text : String) : Column → Except DatabaseFault Store
  | .locales => .ok { store with
      discussions :=
        store.discussions.update id fun row => { row with locales := localesCell text } }
  | .discussionCreated => .ok { store with
      discussions := store.discussions.update id fun row => { row with created := dateCell text } }
  | .ideaCreated => store.overwriteIdea id fun row => { row with created := dateCell text }
  | .ideaModified => store.overwriteIdea id fun row => { row with modified := dateCell text }
  | .ideaTombstone =>
    if store.guarded.contains id then .error .tombstoneBlocked
    else store.overwriteIdea id fun row => { row with tombstone := some (dateCell text) }
  | .ideaKind => store.overwriteIdea id fun row => { row with kind := .ofText Named.ofName? text }
  | .ideaVersion => store.overwriteIdea id fun row => { row with version := .ofText text }
  | .linkCreated => .ok { store with
      links := store.links.update id fun row => { row with created := dateCell text } }
  | .linkTombstone => .ok { store with
      links := store.links.update id fun row => { row with tombstone := some (dateCell text) } }
  | .postCreated => .ok { store with
      posts := store.posts.update id fun row => { row with created := dateCell text } }
  | .postKind => .ok { store with
      posts := store.posts.update id fun row => { row with kind := .ofText Named.ofName? text } }

/-- The store with a column of the row with an id emptied. Only the dates of deletions may be
missing. -/
def clear (store : Store) (id : Id) : Column → Except DatabaseFault Store
  | .ideaTombstone => store.overwriteIdea id fun row => { row with tombstone := none }
  | .linkTombstone => .ok { store with
      links := store.links.update id fun row => { row with tombstone := none } }
  | column => .error (.isNull column.text)

/-- Whether there is a row with an id in the table of a column. -/
def hasRow (store : Store) (id : Id) : Column → Bool
  | .locales | .discussionCreated => (store.discussions.get? id).isSome
  | .ideaCreated | .ideaModified | .ideaTombstone | .ideaKind | .ideaVersion =>
    (store.ideas.get? id).isSome
  | .linkCreated | .linkTombstone => (store.links.get? id).isSome
  | .postCreated | .postKind => (store.posts.get? id).isSome

/-- The store with a column of the row with an id overwritten, by nothing if no text is given. -/
def damaged (store : Store) (id : Id) (column : Column) : Option String → Except DatabaseFault Store
  | some text => store.overwrite id text column
  | none => store.clear id column

/-- What is wrong with the rows: kinds outside their vocabulary, one line for each. -/
def failedChecks (store : Store) : List String :=
  ((store.posts.rows.filter fun row => !row.kind.isLegible).map
    fun _ => "CHECK constraint failed in post") ++
  ((store.ideas.rows.filter fun row => !row.kind.isLegible).map
    fun _ => "CHECK constraint failed in idea")

end Store

namespace Session

def mostFindings : Nat := 100

/-- Overwrites a column of the row with an id. Tells how many rows that has changed. -/
def damage (id : Id) (column : Column) (text : Option String) :
    Attempt Session Nat := fun session =>
  let unchecked := { session with checks := false }
  if session.store.hasRow id column then
    match session.store.damaged id column text with
    | .ok store => (.ok 1, { unchecked with store })
    | .error fault => (.error (.database fault), unchecked)
  else (.ok 0, unchecked)

def guardIdea (idea : Id) : Attempt Session Unit := .modify fun session =>
  { session with store := { session.store with guarded := idea :: session.store.guarded } }

def verify (session : Session) : Except Error Unit :=
  match if session.checks then session.store.failedChecks else [] with
  | [] => .ok ()
  | findings => .error (.corruption ("; ".intercalate (findings.take mostFindings)))

def checkpoint : Attempt Session Unit := log (.note .checkpointed)

/-- Sets the version of the schema and then migrates. Tells the version at the end. -/
def migrateFrom (version : Int) : Attempt Session Nat := do
  .modify fun session => { session with schema := Schema.storedVersion version }
  migrate

end Session

end Deliberation
