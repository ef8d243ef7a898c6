import Deliberation.Aggregation.Basic
import Deliberation.Graph.Visit
import Deliberation.Words.Counter

/-!
The words of an idea: those of its own texts, of the ideas below it, and of the posts related to all
of them. The texts are weighted by what they are. Of posts with the same subject the subject counts
once.
-/

namespace Deliberation

namespace Words.Counter

def addText? (counter : Counter) (text : Option String) (weight : Float) : Counter :=
  match text with
  | some text => counter.addText text (.ofFloat weight)
  | none => counter

def addIdea (weights : Config.WordWeights) (counter : Counter) (idea : Idea) : Counter :=
  ((counter.addText? idea.shortTitle weights.shortTitle).addText? idea.longTitle
    weights.longTitle).addText? idea.definition weights.definition

/-- Adds some posts, where the subjects in `seen` have been counted before. -/
def addPosts (weights : Config.WordWeights) (seen : List String) (counter : Counter) :
    List Post → Counter
  | [] => counter
  | post :: rest =>
    let counter := counter.addText? post.body weights.body
    match post.subject.map Text.clean with
    | none => addPosts weights seen counter rest
    | some subject =>
      if subject.isEmpty ∨ subject ∈ seen then addPosts weights seen counter rest
      else addPosts weights (subject :: seen)
        (counter.addText subject (.ofFloat weights.subject)) rest

end Words.Counter

namespace Aggregator

open Words (Counter)

/-- The posts that are related to an idea or to one below it. -/
def textPosts (aggregator : Aggregator) (idea : Idea) : Traced (List Post) := do
  let ideas ← aggregator.subtree idea.id
  let ids := aggregator.store.relatedPosts idea.discussion ideas
  let posts ← read (aggregator.store.findPosts ids)
  .note (.countingPosts idea.id posts.length)
  return posts

/-- The visitor that counts words. The posts are those of the idea that the walk starts from. -/
def wordVisitor (aggregator : Aggregator) : Visitor (Journaled Counter) Unit where
  visit idea level _ := do
    let weights := aggregator.settings.wordWeights
    Attempt.quiet (.modify fun counter => counter.addIdea weights idea)
    if level = 0 then
      let posts ← Attempt.traced (aggregator.textPosts idea)
      Attempt.quiet (.modify fun counter => counter.addPosts weights [] posts)
    return .proceed ()
  finish _ _ own _ := return own

/-- The weighted words of an idea, without the stop words of the given locales. -/
def wordWeights (aggregator : Aggregator) (idea : Id) (locales : List String) (order : WalkOrder) :
    Traced Counter := do
  let counter : Counter := { locales, leastLength := aggregator.settings.leastWordLength }
  let (walk, counted) := aggregator.store.visit idea order aggregator.wordVisitor counter
  let _ ← walk
  return counted

/-- The locales of a discussion, or else the ones to fall back to. -/
def localesOf (aggregator : Aggregator) (discussion : Id) : Except Error (List String) := do
  match ← aggregator.store.findDiscussion discussion with
  | none => return aggregator.settings.locales
  | some found =>
    return if found.locales.isEmpty then aggregator.settings.locales else found.locales

/-- The heaviest words of an idea, `count` of them if that is said. The stop words are those of the
given language, or else of the locales of the discussion. -/
def mostCommonWords (aggregator : Aggregator) (id : Id) (language : Option String)
    (count : Option Nat) : Traced (List String) :=
  .within (.aggregation "most_common_words" id) do
    match ← read (aggregator.store.findLiveIdea id) with
    | none => return []
    | some idea =>
      let locales ← match language with
        | some language => pure [language]
        | none => read (aggregator.localesOf idea.discussion)
      let counter ← aggregator.wordWeights idea.id locales .depthFirst
      return counter.best (count.getD aggregator.settings.wordCount)

end Aggregator

end Deliberation
