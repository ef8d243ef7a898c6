import Deliberation.Data.Fields
import Deliberation.Data.Json
import Deliberation.Model.Change
import Deliberation.Model.Discussion
import Deliberation.Model.Idea
import Deliberation.Model.Link
import Deliberation.Model.Post

/-!
The models as data documents: how each of them is read from a record and written as one. A written
record has all of its fields; an absent value is null.
-/

namespace Deliberation

open Data (ofNamed ofOption ofTimestamp ofTexts)

namespace NewDiscussion

def ofData? (data : Data) : Option NewDiscussion := do
  let fields ← data.fields? .json ["slug", "topic", "locales"]
  return {
    slug := ← fields.required "slug" Data.text?
    topic := ← fields.required "topic" Data.text?
    locales := ← fields.defaulting "locales" [] Data.texts? }

def toData (new : NewDiscussion) : Data := .record [
  ("slug", .text new.slug),
  ("topic", .text new.topic),
  ("locales", ofTexts new.locales)]

end NewDiscussion

namespace Discussion

def ofData? (data : Data) : Option Discussion := do
  let fields ← data.fields? .json ["id", "slug", "topic", "locales", "creation_date"]
  return {
    id := ← fields.required "id" Data.id?
    slug := ← fields.required "slug" Data.text?
    topic := ← fields.required "topic" Data.text?
    locales := ← fields.required "locales" Data.texts?
    created := ← fields.required "creation_date" Data.timestamp? }

def toData (discussion : Discussion) : Data := .record [
  ("id", .int discussion.id),
  ("slug", .text discussion.slug),
  ("topic", .text discussion.topic),
  ("locales", ofTexts discussion.locales),
  ("creation_date", ofTimestamp discussion.created)]

end Discussion

namespace NewIdea

def ofData? (data : Data) : Option NewIdea := do
  let fields ← data.fields? .json
    ["discussion_id", "kind", "short_title", "long_title", "definition", "hidden"]
  return {
    discussion := ← fields.required "discussion_id" Data.id?
    kind := ← fields.defaulting "kind" .idea (Data.named? .json)
    shortTitle := ← fields.optional "short_title" Data.text?
    longTitle := ← fields.optional "long_title" Data.text?
    definition := ← fields.optional "definition" Data.text?
    hidden := ← fields.defaulting "hidden" false Data.bool? }

def toData (new : NewIdea) : Data := .record [
  ("discussion_id", .int new.discussion),
  ("kind", ofNamed new.kind),
  ("short_title", ofOption .text new.shortTitle),
  ("long_title", ofOption .text new.longTitle),
  ("definition", ofOption .text new.definition),
  ("hidden", .bool new.hidden)]

end NewIdea

namespace IdeaPatch

def ofData? (data : Data) : Option IdeaPatch := do
  let fields ← data.fields? .json ["short_title", "long_title", "definition", "hidden"]
  return {
    shortTitle := ← fields.nullable "short_title" Data.text?
    longTitle := ← fields.nullable "long_title" Data.text?
    definition := ← fields.nullable "definition" Data.text?
    hidden := ← fields.nullable "hidden" Data.bool? }

def toData (patch : IdeaPatch) : Data := .record [
  ("short_title", ofOption .text patch.shortTitle),
  ("long_title", ofOption .text patch.longTitle),
  ("definition", ofOption .text patch.definition),
  ("hidden", ofOption .bool patch.hidden)]

end IdeaPatch

namespace Idea

def ofData? (data : Data) : Option Idea := do
  let fields ← data.fields? .json
    ["id", "discussion_id", "kind", "short_title", "long_title", "definition", "hidden",
      "creation_date", "last_modified", "tombstone_date", "version"]
  return {
    id := ← fields.required "id" Data.id?
    discussion := ← fields.required "discussion_id" Data.id?
    kind := ← fields.required "kind" (Data.named? .json)
    shortTitle := ← fields.nullable "short_title" Data.text?
    longTitle := ← fields.nullable "long_title" Data.text?
    definition := ← fields.nullable "definition" Data.text?
    hidden := ← fields.required "hidden" Data.bool?
    created := ← fields.required "creation_date" Data.timestamp?
    modified := ← fields.required "last_modified" Data.timestamp?
    tombstone := ← fields.nullable "tombstone_date" Data.timestamp?
    version := ← fields.required "version" Data.nat32? }

def toData (idea : Idea) : Data := .record [
  ("id", .int idea.id),
  ("discussion_id", .int idea.discussion),
  ("kind", ofNamed idea.kind),
  ("short_title", ofOption .text idea.shortTitle),
  ("long_title", ofOption .text idea.longTitle),
  ("definition", ofOption .text idea.definition),
  ("hidden", .bool idea.hidden),
  ("creation_date", ofTimestamp idea.created),
  ("last_modified", ofTimestamp idea.modified),
  ("tombstone_date", ofOption ofTimestamp idea.tombstone),
  ("version", .int idea.version)]

end Idea

def Place.ofData? (data : Data) : Option Place := (Data.float? data).map Place.ofFloat

def Place.toData (place : Place) : Data := .float place.toFloat

namespace NewLink

def ofData? (data : Data) : Option NewLink := do
  let fields ← data.fields? .json ["source_id", "target_id", "order", "link_type"]
  return {
    source := ← fields.required "source_id" Data.id?
    target := ← fields.required "target_id" Data.id?
    order := ← fields.defaulting "order" .zero Place.ofData?
    type := ← fields.defaulting "link_type" inclusionType Data.text? }

def toData (new : NewLink) : Data := .record [
  ("source_id", .int new.source),
  ("target_id", .int new.target),
  ("order", new.order.toData),
  ("link_type", .text new.type)]

end NewLink

namespace Link

def ofData? (data : Data) : Option Link := do
  let fields ← data.fields? .json
    ["id", "source_id", "target_id", "order", "link_type", "creation_date", "tombstone_date"]
  return {
    id := ← fields.required "id" Data.id?
    source := ← fields.required "source_id" Data.id?
    target := ← fields.required "target_id" Data.id?
    order := ← fields.required "order" Place.ofData?
    type := ← fields.required "link_type" Data.text?
    created := ← fields.required "creation_date" Data.timestamp?
    tombstone := ← fields.nullable "tombstone_date" Data.timestamp? }

def toData (link : Link) : Data := .record [
  ("id", .int link.id),
  ("source_id", .int link.source),
  ("target_id", .int link.target),
  ("order", link.order.toData),
  ("link_type", .text link.type),
  ("creation_date", ofTimestamp link.created),
  ("tombstone_date", ofOption ofTimestamp link.tombstone)]

end Link

namespace NewPost

def ofData? (data : Data) : Option NewPost := do
  let fields ← data.fields? .json
    ["discussion_id", "kind", "creator_id", "parent_id", "subject", "body", "hidden"]
  return {
    discussion := ← fields.required "discussion_id" Data.id?
    kind := ← fields.defaulting "kind" .assembl (Data.named? .json)
    creator := ← fields.required "creator_id" Data.id?
    parent := ← fields.optional "parent_id" Data.id?
    subject := ← fields.optional "subject" Data.text?
    body := ← fields.optional "body" Data.text?
    hidden := ← fields.defaulting "hidden" false Data.bool? }

def toData (new : NewPost) : Data := .record [
  ("discussion_id", .int new.discussion),
  ("kind", ofNamed new.kind),
  ("creator_id", .int new.creator),
  ("parent_id", ofOption .int new.parent),
  ("subject", ofOption .text new.subject),
  ("body", ofOption .text new.body),
  ("hidden", .bool new.hidden)]

end NewPost

namespace Post

def ofData? (data : Data) : Option Post := do
  let fields ← data.fields? .json
    ["id", "discussion_id", "kind", "creator_id", "parent_id", "ancestry", "subject", "body",
      "hidden", "creation_date"]
  return {
    id := ← fields.required "id" Data.id?
    discussion := ← fields.required "discussion_id" Data.id?
    kind := ← fields.required "kind" (Data.named? .json)
    creator := ← fields.required "creator_id" Data.id?
    parent := ← fields.nullable "parent_id" Data.id?
    ancestry := ← fields.required "ancestry" Data.text?
    subject := ← fields.nullable "subject" Data.text?
    body := ← fields.nullable "body" Data.text?
    hidden := ← fields.required "hidden" Data.bool?
    created := ← fields.required "creation_date" Data.timestamp? }

def toData (post : Post) : Data := .record [
  ("id", .int post.id),
  ("discussion_id", .int post.discussion),
  ("kind", ofNamed post.kind),
  ("creator_id", .int post.creator),
  ("parent_id", ofOption .int post.parent),
  ("ancestry", .text post.ancestry),
  ("subject", ofOption .text post.subject),
  ("body", ofOption .text post.body),
  ("hidden", .bool post.hidden),
  ("creation_date", ofTimestamp post.created)]

end Post

namespace NewContentLink

def ofData? (data : Data) : Option NewContentLink := do
  let fields ← data.fields? .json ["idea_id", "content_id", "kind", "important", "creator_id"]
  return {
    idea := ← fields.optional "idea_id" Data.id?
    post := ← fields.required "content_id" Data.id?
    kind := ← fields.required "kind" (Data.named? .json)
    important := ← fields.defaulting "important" false Data.bool?
    creator := ← fields.required "creator_id" Data.id? }

def toData (new : NewContentLink) : Data := .record [
  ("idea_id", ofOption .int new.idea),
  ("content_id", .int new.post),
  ("kind", ofNamed new.kind),
  ("important", .bool new.important),
  ("creator_id", .int new.creator)]

end NewContentLink

namespace ContentLink

def ofData? (data : Data) : Option ContentLink := do
  let fields ← data.fields? .json
    ["id", "idea_id", "content_id", "kind", "important", "creator_id", "creation_date"]
  return {
    id := ← fields.required "id" Data.id?
    idea := ← fields.nullable "idea_id" Data.id?
    post := ← fields.required "content_id" Data.id?
    kind := ← fields.required "kind" (Data.named? .json)
    important := ← fields.required "important" Data.bool?
    creator := ← fields.required "creator_id" Data.id?
    created := ← fields.required "creation_date" Data.timestamp? }

def toData (link : ContentLink) : Data := .record [
  ("id", .int link.id),
  ("idea_id", ofOption .int link.idea),
  ("content_id", .int link.post),
  ("kind", ofNamed link.kind),
  ("important", .bool link.important),
  ("creator_id", .int link.creator),
  ("creation_date", ofTimestamp link.created)]

end ContentLink

namespace NewAction

def ofData? (data : Data) : Option NewAction := do
  let fields ← data.fields? .json ["kind", "actor_id", "post_id"]
  return {
    kind := ← fields.required "kind" (Data.named? .json)
    actor := ← fields.required "actor_id" Data.id?
    post := ← fields.required "post_id" Data.id? }

def toData (new : NewAction) : Data := .record [
  ("kind", ofNamed new.kind),
  ("actor_id", .int new.actor),
  ("post_id", .int new.post)]

end NewAction

namespace Action

def ofData? (data : Data) : Option Action := do
  let fields ← data.fields? .json
    ["id", "kind", "actor_id", "post_id", "creation_date", "tombstone_date"]
  return {
    id := ← fields.required "id" Data.id?
    kind := ← fields.required "kind" (Data.named? .json)
    actor := ← fields.required "actor_id" Data.id?
    post := ← fields.required "post_id" Data.id?
    created := ← fields.required "creation_date" Data.timestamp?
    tombstone := ← fields.nullable "tombstone_date" Data.timestamp? }

def toData (action : Action) : Data := .record [
  ("id", .int action.id),
  ("kind", ofNamed action.kind),
  ("actor_id", .int action.actor),
  ("post_id", .int action.post),
  ("creation_date", ofTimestamp action.created),
  ("tombstone_date", ofOption ofTimestamp action.tombstone)]

end Action

namespace Contribution

def ofData? (data : Data) : Option Contribution := do
  let fields ← data.fields? .json ["agent_id", "pivot_count", "post_count", "first_post_id"]
  return {
    agent := ← fields.required "agent_id" Data.id?
    pivots := ← fields.required "pivot_count" Data.nat64?
    posts := ← fields.required "post_count" Data.nat64?
    firstPost := ← fields.required "first_post_id" Data.id? }

def toData (contribution : Contribution) : Data := .record [
  ("agent_id", .int contribution.agent),
  ("pivot_count", .int contribution.pivots),
  ("post_count", .int contribution.posts),
  ("first_post_id", .int contribution.firstPost)]

end Contribution

namespace PostCounts

def ofData? (data : Data) : Option PostCounts := do
  let fields ← data.fields? .json ["total", "read"]
  return {
    total := ← fields.required "total" Data.nat64?
    read := ← fields.required "read" Data.nat64? }

def toData (counts : PostCounts) : Data := .record [
  ("total", .int counts.total),
  ("read", .int counts.read)]

end PostCounts

namespace Change

/-- The greatest depth of a document in which a change is told by its event. -/
def greatestDepth : Nat := 127

/-- Reads the fields of the change called `event`, which come as a record or as a list. -/
def ofEvent? (event : String) (data : Data) : Option Change := do
  match event with
  | "created" =>
    let fields ← data.fields? .json ["id"]
    return .created (← fields.required "id" Data.id?)
  | "modified" =>
    let fields ← data.fields? .json ["id", "version"]
    return .modified (← fields.required "id" Data.id?) (← fields.required "version" Data.nat32?)
  | "deleted" =>
    let fields ← data.fields? .json ["id"]
    return .deleted (← fields.required "id" Data.id?)
  | _ => none

/-- Reads a record, in which the field `event` says what kind of change it is. In a list the event
comes first. -/
def ofData? (data : Data) : Option Change :=
  match data with
  | .list (.text event :: rest) => ofEvent? event (.list rest)
  | .record fields =>
    match fields.filter fun field => field.1 == "event" with
    | [(_, .text event)] => ofEvent? event (.record (fields.filter fun field => field.1 != "event"))
    | _ => none
  | _ => none

/-- Reads a whole document. Its event decides how the rest is read, so all of it has to be readable
and not too deep. -/
def ofDocument? (document : Json.Document) : Option Change :=
  if document.readable ∧ document.depth ≤ greatestDepth then ofData? document.root else none

def toData : Change → Data
  | .created idea => .record [("event", .text "created"), ("id", .int idea)]
  | .modified idea version =>
    .record [("event", .text "modified"), ("id", .int idea), ("version", .int version)]
  | .deleted idea => .record [("event", .text "deleted"), ("id", .int idea)]

end Change

end Deliberation
