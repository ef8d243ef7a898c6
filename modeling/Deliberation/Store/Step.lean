import Deliberation.Attempt
import Deliberation.Store.Adjacency

/-!
The single steps that writes are made of. A step does its work at once; whatever fails later, it is
the write as a whole that is taken back.
-/

namespace Deliberation.Store

/-- The answer of the database to a step, with what the step was about. -/
def during {α : Type} (action : String) : Except DatabaseFault α → Except Error α
  | .ok a => .ok a
  | .error fault => .error (.database (.during action fault))

/-- Adds a row to one of the tables. `place` puts a table where `table` finds it. -/
def addRow {ρ : Type} (action : String) (table : Store → Table ρ) (place : Table ρ → Store → Store)
    (row : ρ) : Attempt Store Id := fun store =>
  match (table store).insert row with
  | .ok (id, grown) => (.ok id, place grown store)
  | .error fault => (during action (.error fault), store)

def addDiscussion (row : DiscussionRow) : Attempt Store Id := fun store =>
  let action := "insert discussion '" ++ row.slug ++ "'"
  if store.discussions.rows.any fun known => known.slug == row.slug then
    (during action (.error (.notUnique "discussion.slug")), store)
  else addRow action discussions (fun discussions store => { store with discussions }) row store

def addIdea : IdeaRow → Attempt Store Id :=
  addRow "insert idea" ideas fun ideas store => { store with ideas }

def addLink : LinkRow → Attempt Store Id :=
  addRow "insert idea link" links fun links store => { store with links }

def addPost : PostRow → Attempt Store Id :=
  addRow "insert post" posts fun posts store => { store with posts }

def addContent : ContentRow → Attempt Store Id :=
  addRow "insert content link" contents fun contents store => { store with contents }

def addAction : ActionRow → Attempt Store Id :=
  addRow "insert post action" actions fun actions store => { store with actions }

def IdeaRow.bumped (now : Timestamp) (row : IdeaRow) : IdeaRow :=
  { row with modified := .legible now, version := row.version.next }

/-- The row of an idea with the present fields of a patch. -/
def IdeaRow.patched (patch : IdeaPatch) (row : IdeaRow) : IdeaRow :=
  { row with
    shortTitle := patch.shortTitle <|> row.shortTitle
    longTitle := patch.longTitle <|> row.longTitle
    definition := patch.definition <|> row.definition
    hidden := patch.hidden.getD row.hidden }

def IdeaRow.deleted (now : Timestamp) (row : IdeaRow) : IdeaRow :=
  { row.bumped now with tombstone := some (.legible now) }

def LinkRow.removed (now : Timestamp) (row : LinkRow) : LinkRow :=
  { row with tombstone := some (.legible now) }

def ActionRow.retracted (now : Timestamp) (row : ActionRow) : ActionRow :=
  { row with tombstone := some now }

def LinkRow.touches (idea : Id) (row : LinkRow) : Bool := row.source == idea || row.target == idea

def removeLink (now : Timestamp) (store : Store) (link : Id) : Store :=
  { store with links := store.links.update link (LinkRow.removed now) }

def removeLinksOf (now : Timestamp) (idea : Id) (store : Store) : Store :=
  { store with
    links := store.links.mapRows fun row =>
      if row.isLive && row.touches idea then row.removed now else row }

def changeIdea (action : String) (idea : Id) (change : IdeaRow → IdeaRow) :
    Attempt Store Nat := fun store =>
  let changed := { store with ideas := store.ideas.update idea change }
  match changed.ideas.get? idea with
  | none => (during action (.error .noRow), store)
  | some row => (during action (row.version.read 0), changed)

def bump (now : Timestamp) (idea : Id) : Attempt Store Nat :=
  changeIdea ("bump version of idea " ++ idea.text) idea (IdeaRow.bumped now)

/-- Counts one more modification of each of some ideas and tells their versions. -/
def bumpAll (now : Timestamp) : List Id → Attempt Store (List (Id × Nat))
  | [] => return []
  | idea :: rest => do
    let version ← bump now idea
    return (idea, version) :: (← bumpAll now rest)

end Deliberation.Store
