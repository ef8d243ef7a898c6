import Deliberation.Ancestry
import Deliberation.Store.Step

/-!
The twelve writes. Each of them does everything or nothing: a write of several steps is atomic, and
a write of one step checks all it needs before that step. `now` is the instant that is noted as the
time of the write.
-/

namespace Deliberation.Store

/-- An edit of a link: the link that is live after it, or the link that was removed, and its source
with the version that the source has now. -/
structure LinkEdit where
  link : Id
  source : Id
  version : Nat
deriving DecidableEq, Repr

structure Cascade where
  idea : Id
  links : Nat
  /-- The former parents with the versions that they have now. -/
  parents : List (Id × Nat)
deriving DecidableEq, Repr

structure Move where
  edit : LinkEdit
  /-- The other former parents with the versions that they have now. -/
  formerParents : List (Id × Nat)
deriving DecidableEq, Repr

def requireIdea (id : Id) (store : Store) : Except Error Idea := do
  match ← store.findIdea id with
  | some idea => .ok idea
  | none => .error (.ideaNotFound id)

/-- The idea with an id, which has to exist and to be live. -/
def requireLiveIdea (id : Id) (store : Store) : Except Error Idea := do
  let idea ← store.requireIdea id
  if idea.isTombstone then .error (.validation (.ideaTombstoned id)) else .ok idea

/-- The link with an id, which has to exist and to be live. -/
def requireLiveLink (id : Id) (store : Store) : Except Error Link := do
  match ← store.findLink id with
  | some link => if link.isTombstone then .error (.validation (.linkTombstoned id)) else .ok link
  | none => .error (.linkNotFound id)

def requirePost (id : Id) (store : Store) : Except Error Post := do
  match ← store.findPost id with
  | some post => .ok post
  | none => .error (.postNotFound id)

def requireDiscussion (id : Id) (store : Store) : Except Error Unit :=
  if (store.discussions.get? id).isSome then .ok () else .error (.discussionNotFound id)

def requireNoRoot (discussion : Id) (store : Store) : Except Error Unit := do
  if (← store.findRoot discussion).isSome then .error (.duplicateRoot discussion) else .ok ()

/-- Two ideas can be linked if both are live ideas of one discussion. -/
def requireLinkable (source target : Id) (store : Store) : Except Error Unit := do
  let parent ← store.requireIdea source
  let child ← store.requireIdea target
  if parent.isTombstone then .error (.invalidLink source target (.sourceTombstoned source))
  else if child.isTombstone then .error (.invalidLink source target (.targetTombstoned target))
  else if parent.discussion ≠ child.discussion then
    .error (.invalidLink source target (.differentDiscussions parent.discussion child.discussion))
  else .ok ()

def requireFinite (order : Place) : Except Error Unit :=
  match order.nonFinite? with
  | some nonFinite => .error (.validation (.linkOrder nonFinite))
  | none => .ok ()

def LinkRow.ofNew (now : Timestamp) (new : NewLink) : LinkRow where
  source := new.source
  target := new.target
  order := new.order.stored
  type := new.type
  created := .legible now

def IdeaRow.ofNew (now : Timestamp) (new : NewIdea) : IdeaRow where
  discussion := new.discussion
  kind := .legible new.kind
  shortTitle := new.shortTitle
  longTitle := new.longTitle
  definition := new.definition
  hidden := new.hidden
  created := .legible now
  modified := .legible now

def rootOf (discussion : Id) (topic : String) : NewIdea :=
  { discussion, kind := .root, shortTitle := some topic }

/-- Adds an idea to a discussion that exists, and that has no root idea if this is to be one. -/
def insertIdea (now : Timestamp) (new : NewIdea) : Attempt Store Id := do
  .read (requireDiscussion new.discussion)
  if new.kind = .root then .read (requireNoRoot new.discussion)
  addIdea (.ofNew now new)

/-- Opens a discussion together with its root idea. Tells both ids. -/
def createDiscussion (now : Timestamp) (new : NewDiscussion) : Attempt Store (Id × Id) := .atomic do
  let discussion ← addDiscussion ⟨new.slug, new.topic, .legible new.locales, .legible now⟩
  let root ← insertIdea now (rootOf discussion new.topic)
  return (discussion, root)

/-- Creates an idea. A single row is added, so nothing has to be taken back. -/
def createIdea (now : Timestamp) (new : NewIdea) : Attempt Store Id := insertIdea now new

def updateIdea (now : Timestamp) (idea : Id) (patch : IdeaPatch) : Attempt Store Nat := .atomic do
  let _ ← .read (requireLiveIdea idea)
  changeIdea ("update idea " ++ idea.text) idea fun row => (row.patched patch).bumped now

def attach (now : Timestamp) (new : NewLink) : Attempt Store LinkEdit := do
  let link ← addLink (.ofNew now new)
  let version ← bump now new.source
  return ⟨link, new.source, version⟩

def createLink (now : Timestamp) (new : NewLink) : Attempt Store LinkEdit := .atomic do
  .ofExcept (requireFinite new.order)
  .read (requireLinkable new.source new.target)
  attach now new

def tombstoneLink (now : Timestamp) (id : Id) : Attempt Store LinkEdit := .atomic do
  let link ← .read (requireLiveLink id)
  .modify fun store => store.removeLink now id
  let version ← bump now link.source
  return ⟨id, link.source, version⟩

/-- Puts a live link into another place: it is removed, and another one takes its part. -/
def reorderLink (now : Timestamp) (id : Id) (order : Place) : Attempt Store LinkEdit := .atomic do
  .ofExcept (requireFinite order)
  let link ← .read (requireLiveLink id)
  .modify fun store => store.removeLink now id
  attach now ⟨link.source, link.target, order, link.type⟩

/-- The links that lead to an idea and have not been removed, by id. -/
def inboundLinks (idea : Id) (store : Store) : Except Error (List Link) :=
  readAll LinkRow.read (store.liveLinks.filter fun entry => entry.2.target == idea)

/-- A live idea that stands for no discussion can be moved, but not under itself. -/
def requireMovable (idea parent : Id) (store : Store) : Except Error Unit := do
  let found ← store.requireLiveIdea idea
  if found.isRoot then .error (.validation (.rootMove idea))
  else if parent = idea then .error (.validation (.moveUnderItself idea))
  else store.requireLinkable parent idea

/-- Replaces all links to an idea by one from `parent`. -/
def moveIdea (now : Timestamp) (idea parent : Id) (order : Place) : Attempt Store Move := .atomic do
  .ofExcept (requireFinite order)
  .read (requireMovable idea parent)
  let inbound ← .read (inboundLinks idea)
  .modify fun store => (inbound.map (·.id)).foldl (removeLink now) store
  let former := (inbound.map (·.source)).filter fun source => source != parent && source != idea
  let formerParents ← bumpAll now (ascending former)
  let edit ← attach now { source := parent, target := idea, order }
  return ⟨edit, formerParents⟩

/-- The other ideas that a link leads from to an idea, removed links left aside. -/
def linkedParents (idea : Id) (store : Store) : List Id :=
  ascending (((store.liveLinks.filter fun entry => entry.2.target == idea).map (·.2.source)).filter
    fun source => source != idea)

def deleteIdea (now : Timestamp) (idea : Id) : Attempt Store Unit := fun store =>
  if store.guarded.contains idea then
    (during ("tombstone idea " ++ idea.text) (.error .tombstoneBlocked), store)
  else (.ok (), { store with ideas := store.ideas.update idea (IdeaRow.deleted now) })

def cascade (now : Timestamp) (idea : Id) : Attempt Store Cascade := do
  let store ← .state
  let parents := store.linkedParents idea
  let links := (store.liveLinks.filter fun entry => entry.2.touches idea).length
  .modify (removeLinksOf now idea)
  deleteIdea now idea
  let parents ← bumpAll now parents
  return ⟨idea, links, parents⟩

/-- Deletes an idea that stands for no discussion. Nothing is to be done if it was deleted
before. -/
def tombstoneIdea (now : Timestamp) (id : Id) : Attempt Store (Option Cascade) := do
  let idea ← .read (requireIdea id)
  if idea.isRoot then .fail (.validation (.rootTombstone id idea.discussion))
  else if idea.isTombstone then return none
  else
    let done ← (cascade now id).atomic.mapError fun reason => .cascadeFailed id reason.message
    return some done

/-- The reply path of a new post. A post and the one that it replies to belong to one discussion. -/
def replyPath (new : NewPost) (store : Store) : Except Error String := do
  match new.parent with
  | none => return ""
  | some id =>
    let parent ← store.requirePost id
    if parent.discussion ≠ new.discussion then
      .error (.validation (.parentElsewhere id parent.discussion))
    else return Ancestry.child parent.ancestry parent.id

def createPost (now : Timestamp) (new : NewPost) : Attempt Store Id := do
  .read (requireDiscussion new.discussion)
  let ancestry ← .read (replyPath new)
  addPost {
    discussion := new.discussion
    kind := .legible new.kind
    creator := new.creator
    parent := new.parent
    ancestry := ancestry
    subject := new.subject
    body := new.body
    hidden := new.hidden
    created := .legible now }

/-- A post can be tied to no idea, or to a live one of its own discussion. Only an extract can be
important. -/
def requireTieable (new : NewContentLink) (store : Store) : Except Error Unit := do
  let post ← store.requirePost new.post
  if new.important ∧ new.kind ≠ .extract then
    .error (.validation (.importantButNotExtract (Named.name new.kind)))
  else match new.idea with
    | none => .ok ()
    | some id =>
      let idea ← store.requireLiveIdea id
      if idea.discussion ≠ post.discussion then .error (.validation (.ideaAndPostApart id post.id))
      else .ok ()

def linkContent (now : Timestamp) (new : NewContentLink) : Attempt Store Id := do
  .read (requireTieable new)
  addContent {
    idea := new.idea
    post := new.post
    kind := new.kind
    important := new.important
    creator := new.creator
    created := now }

def recordAction (now : Timestamp) (new : NewAction) : Attempt Store Id := do
  let _ ← .read (requirePost new.post)
  addAction { kind := new.kind, actor := new.actor, post := new.post, created := now }

/-- Whether there is an action with this id that has not been taken back. -/
def isLiveAction (store : Store) (id : Id) : Bool :=
  match store.actions.get? id with
  | some row => row.isLive
  | none => false

def retractAction (now : Timestamp) (id : Id) : Attempt Store Unit := fun store =>
  if store.isLiveAction id then
    (.ok (), { store with actions := store.actions.update id (ActionRow.retracted now) })
  else (.error (.validation (.noLiveAction id)), store)

end Deliberation.Store
