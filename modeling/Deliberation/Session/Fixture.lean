import Deliberation.Model.Document
import Deliberation.Session.Basic

/-!
Fixtures: whole discussions described in one document. A fixture refers to its own ideas and posts
by keys; installing it tells which ids they got.
-/

namespace Deliberation

namespace Fixture

structure IdeaPart where
  key : String
  shortTitle : Option String := none
  longTitle : Option String := none
  definition : Option String := none
  hidden : Bool := false

structure LinkPart where
  key : Option String := none
  source : String
  target : String
  order : Place := .zero

structure PostPart where
  key : String
  creator : Id
  parent : Option String := none
  kind : PostKind := .assembl
  subject : Option String := none
  body : Option String := none
  hidden : Bool := false

structure ContentPart where
  idea : Option String := none
  post : String
  kind : ContentKind
  important : Bool := false
  creator : Id := 1

structure ActionPart where
  agent : Id
  post : String
  kind : ActionKind := .read

end Fixture

structure Fixture where
  slug : String
  topic : String
  locales : List String := []
  ideas : List Fixture.IdeaPart := []
  links : List Fixture.LinkPart := []
  posts : List Fixture.PostPart := []
  contents : List Fixture.ContentPart := []
  actions : List Fixture.ActionPart := []
  /-- Keys of ideas that are deleted when everything else is there. -/
  tombstoned : List String := []

namespace Fixture

def IdeaPart.ofData? (data : Data) : Option IdeaPart := do
  let fields ← data.fields? .json ["key", "short_title", "long_title", "definition", "hidden"]
  return {
    key := ← fields.required "key" Data.text?
    shortTitle := ← fields.optional "short_title" Data.text?
    longTitle := ← fields.optional "long_title" Data.text?
    definition := ← fields.optional "definition" Data.text?
    hidden := ← fields.defaulting "hidden" false Data.bool? }

def LinkPart.ofData? (data : Data) : Option LinkPart := do
  let fields ← data.fields? .json ["key", "source", "target", "order"]
  return {
    key := ← fields.optional "key" Data.text?
    source := ← fields.required "source" Data.text?
    target := ← fields.required "target" Data.text?
    order := ← fields.defaulting "order" .zero Place.ofData? }

def PostPart.ofData? (data : Data) : Option PostPart := do
  let fields ← data.fields? .json
    ["key", "creator", "parent", "kind", "subject", "body", "hidden"]
  return {
    key := ← fields.required "key" Data.text?
    creator := ← fields.required "creator" Data.id?
    parent := ← fields.optional "parent" Data.text?
    kind := ← fields.defaulting "kind" .assembl (Data.named? .json)
    subject := ← fields.optional "subject" Data.text?
    body := ← fields.optional "body" Data.text?
    hidden := ← fields.defaulting "hidden" false Data.bool? }

def ContentPart.ofData? (data : Data) : Option ContentPart := do
  let fields ← data.fields? .json ["idea", "post", "kind", "important", "creator"]
  return {
    idea := ← fields.optional "idea" Data.text?
    post := ← fields.required "post" Data.text?
    kind := ← fields.required "kind" (Data.named? .json)
    important := ← fields.defaulting "important" false Data.bool?
    creator := ← fields.defaulting "creator" 1 Data.id? }

def ActionPart.ofData? (data : Data) : Option ActionPart := do
  let fields ← data.fields? .json ["agent", "post", "kind"]
  return {
    agent := ← fields.required "agent" Data.id?
    post := ← fields.required "post" Data.text?
    kind := ← fields.defaulting "kind" .read (Data.named? .json) }

def ofData? (data : Data) : Option Fixture := do
  let fields ← data.fields? .json
    ["slug", "topic", "locales", "ideas", "links", "posts", "content_links", "actions",
      "tombstoned"]
  return {
    slug := ← fields.required "slug" Data.text?
    topic := ← fields.required "topic" Data.text?
    locales := ← fields.defaulting "locales" [] Data.texts?
    ideas := ← fields.defaulting "ideas" [] (Data.list? IdeaPart.ofData?)
    links := ← fields.defaulting "links" [] (Data.list? LinkPart.ofData?)
    posts := ← fields.defaulting "posts" [] (Data.list? PostPart.ofData?)
    contents := ← fields.defaulting "content_links" [] (Data.list? ContentPart.ofData?)
    actions := ← fields.defaulting "actions" [] (Data.list? ActionPart.ofData?)
    tombstoned := ← fields.defaulting "tombstoned" [] Data.texts? }

abbrev Keys := List (String × Id)

/-- The keys with one more, which takes the place of an equal one. -/
def Keys.put (keys : Keys) (key : String) (id : Id) : Keys :=
  (key, id) :: keys.filter fun known => known.1 != key

/-- The id under a key, of which `what` says what it names. -/
def Keys.find (keys : Keys) (what key : String) : Except Error Id :=
  match keys.lookup key with
  | some id => .ok id
  | none => .error (.validation (.unknownKey what key))

def Keys.find? (keys : Keys) (what : String) : Option String → Except Error (Option Id)
  | none => .ok none
  | some key => (keys.find what key).map some

def rootKey : String := "root"

structure Installed where
  discussion : Id
  ideas : Keys := []
  links : Keys := []
  posts : Keys := []

variable (now : Timestamp) (installed : Installed)

def installIdea (part : IdeaPart) : Attempt Session Installed := do
  let id : Id ← Session.perform now (.createIdea {
    discussion := installed.discussion
    shortTitle := part.shortTitle
    longTitle := part.longTitle
    definition := part.definition
    hidden := part.hidden })
  return { installed with ideas := installed.ideas.put part.key id }

def installLink (part : LinkPart) : Attempt Session Installed := do
  let source ← .ofExcept (installed.ideas.find "idea" part.source)
  let target ← .ofExcept (installed.ideas.find "idea" part.target)
  let id : Id ← Session.perform now (.createLink { source, target, order := part.order })
  return match part.key with
    | none => installed
    | some key => { installed with links := installed.links.put key id }

def installPost (part : PostPart) : Attempt Session Installed := do
  let parent ← .ofExcept (installed.posts.find? "post" part.parent)
  let id : Id ← Session.perform now (.createPost {
    discussion := installed.discussion
    kind := part.kind
    creator := part.creator
    parent := parent
    subject := part.subject
    body := part.body
    hidden := part.hidden })
  return { installed with posts := installed.posts.put part.key id }

def installContent (part : ContentPart) : Attempt Session Installed := do
  let idea ← .ofExcept (installed.ideas.find? "idea" part.idea)
  let post ← .ofExcept (installed.posts.find "post" part.post)
  let _ ← Session.perform now (.linkContent {
    idea := idea
    post := post
    kind := part.kind
    important := part.important
    creator := part.creator })
  return installed

def installAction (part : ActionPart) : Attempt Session Installed := do
  let post ← .ofExcept (installed.posts.find "post" part.post)
  let _ ← Session.perform now (.recordAction { kind := part.kind, actor := part.agent, post })
  return installed

def installTombstone (key : String) : Attempt Session Installed := do
  let idea ← .ofExcept (installed.ideas.find "idea" key)
  let _ ← Session.perform now (.tombstoneIdea idea)
  return installed

/-- Installs a fixture, part after part. What was installed before a failure stays. -/
def install (now : Timestamp) (fixture : Fixture) : Attempt Session Installed := do
  let (discussion, root) ← Session.perform now
    (.createDiscussion ⟨fixture.slug, fixture.topic, fixture.locales⟩)
  let installed : Installed := { discussion, ideas := [(rootKey, root)] }
  let installed ← fixture.ideas.foldlM (installIdea now) installed
  let installed ← fixture.links.foldlM (installLink now) installed
  let installed ← fixture.posts.foldlM (installPost now) installed
  let installed ← fixture.contents.foldlM (installContent now) installed
  let installed ← fixture.actions.foldlM (installAction now) installed
  fixture.tombstoned.foldlM (installTombstone now) installed

def Keys.toData (keys : Keys) : Data := .record (keys.map fun (key, id) => (key, .int id))

def Installed.toData (installed : Installed) : Data := .record [
  ("discussion", .int installed.discussion),
  ("root", Data.ofOption .int (installed.ideas.lookup rootKey)),
  ("ideas", installed.ideas.toData),
  ("links", installed.links.toData),
  ("posts", installed.posts.toData),
  ("post_ids", Data.ofInts ((installed.posts.map (·.2)).mergeSort fun a b => decide (a ≤ b)))]

end Fixture

end Deliberation
