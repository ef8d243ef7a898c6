import Deliberation.Aggregation.Ranking
import Deliberation.Closure.Resolver
import Deliberation.Store.Content
import Deliberation.Text.Preview

/-!
Aggregation: what the posts below an idea come to. Every question is answered from one state of the
store, inside a span that names the question and the id that it is about.
-/

namespace Deliberation

structure Aggregator where
  store : Store
  strategy : ClosureStrategy := .native
  settings : Config.Analytics := {}

namespace Aggregator

variable {α : Type}

def read (x : Except Error α) : Traced α := .ofExcept x

def subtree (aggregator : Aggregator) (idea : Id) : Traced (List Id) :=
  aggregator.strategy.descendants aggregator.store idea true

/-- How many posts are related to an idea, and how many of them the user has read. All posts of a
discussion are related to its root idea, but only those below an idea count as read. -/
def counts (aggregator : Aggregator) (id : Id) (user : Option Id) : Traced PostCounts := do
  match ← read (aggregator.store.findLiveIdea id) with
  | none => return {}
  | some idea =>
    let ideas ← aggregator.subtree idea.id
    let related := aggregator.store.relatedCounts idea.discussion ideas user
    if idea.isRoot then return ⟨aggregator.store.postCount idea.discussion, related.read⟩
    else return related

/-- The posts of a discussion that are related to an idea or to one below it. -/
def relatedPosts (aggregator : Aggregator) (discussion idea : Id) : Traced (List Id) :=
  .within (.aggregation "related_posts" idea) do
    let ideas ← aggregator.subtree idea
    return aggregator.store.relatedPosts discussion ideas

def postCount (aggregator : Aggregator) (idea : Id) : Traced Nat :=
  .within (.aggregation "num_posts" idea) do
    return (← aggregator.counts idea none).total

/-- How many posts below an idea a user has read; nobody has read none, and is not looked for. -/
def readBelow (aggregator : Aggregator) (idea : Id) : Option Id → Traced Nat
  | none => return 0
  | some user => return (← aggregator.counts idea (some user)).read

def readCount (aggregator : Aggregator) (idea : Id) (user : Option Id) : Traced Nat :=
  .within (.aggregation "num_read_posts_for" idea) (aggregator.readBelow idea user)

/-- How many posts are related to an idea, and how many of them a user has read. -/
def postCounts (aggregator : Aggregator) (idea : Id) (user : Option Id) : Traced PostCounts :=
  .within (.aggregation "num_total_and_read_posts_for" idea) (aggregator.counts idea user)

/-- The posts of a discussion that are related to none of its ideas. -/
def orphans (aggregator : Aggregator) (discussion : Id) : Traced (List Id) :=
  .within (.aggregation "orphan_posts" discussion) (return aggregator.store.orphans discussion)

/-- How many posts of a discussion are related to none of its ideas. -/
def orphanCount (aggregator : Aggregator) (discussion : Id) : Traced Nat := do
  return (← aggregator.orphans discussion).length

def synthesisCount (aggregator : Aggregator) (discussion : Id) : Traced Nat :=
  .within (.aggregation "num_synthesis_posts" discussion)
    (return aggregator.store.synthesisCount discussion)

/-- The authors of the posts related to an idea, the most important ones first. -/
def contributors (aggregator : Aggregator) (id : Id) : Traced (List Id) :=
  .within (.aggregation "contributors" id) do
    match ← read (aggregator.store.findLiveIdea id) with
    | none => return []
    | some idea =>
      let ideas ← aggregator.subtree idea.id
      return Ranking.contributors aggregator.settings.tieBreak
        (aggregator.store.contributions idea.discussion ideas)

/-- The authors of the posts behind the important extracts of an idea. -/
def synthesisContributors (aggregator : Aggregator) (id : Id) : Traced (List Id) :=
  .within (.aggregation "synthesis_contributors" id) do
    match ← read (aggregator.store.findLiveIdea id) with
    | none => return []
    | some _ =>
      let ideas ← aggregator.subtree id
      return Ranking.synthesisContributors aggregator.settings.tieBreak
        (aggregator.store.extractContributions ideas)

/-- The ideas above each of some ideas and those ideas themselves, found for one after another. -/
def ancestorsOfEach (aggregator : Aggregator) : List Id → Traced (List Id)
  | [] => return []
  | idea :: rest => do
    let above ← aggregator.strategy.ancestors aggregator.store [idea] true
    return above ++ (← aggregator.ancestorsOfEach rest)

/-- The ideas that show a post: those that its thread is tied to, and all above them. -/
def showing (aggregator : Aggregator) (post : Id) : Traced (List Id) := do
  let tied ← read (aggregator.store.ideasOfThread post)
  if tied.isEmpty then return []
  else if aggregator.strategy.looksFromMany then
    aggregator.strategy.ancestors aggregator.store tied true
  else
    let ideas := ascending (← aggregator.ancestorsOfEach tied)
    .note (.resolvedPerIdea post ideas.length)
    return ideas

def ideasShowing (aggregator : Aggregator) (post : Id) : Traced (List Id) :=
  .within (.aggregation "idea_ids_showing_post" post) (aggregator.showing post)

/-- How many posts the user has read below each of some ideas. -/
def readCounts (aggregator : Aggregator) (user : Option Id) : List Id → Traced (List (Id × Nat))
  | [] => return []
  | idea :: rest => do
    let count ← aggregator.readBelow idea user
    return (idea, count) :: (← aggregator.readCounts user rest)

/-- The ideas that show a post, each with the number of posts that the user has read below it. -/
def readCountsOf (aggregator : Aggregator) (post : Id) (user : Option Id) :
    Traced (List (Id × Nat)) :=
  .within (.aggregation "idea_read_counts" post) do
    aggregator.readCounts user (← aggregator.showing post)

def definitionPreview (aggregator : Aggregator) (id : Id) : Traced (Option String) := do
  let idea ← read (aggregator.store.findLiveIdea id)
  return (idea.bind (·.definition)).map Text.preview

end Aggregator

end Deliberation
