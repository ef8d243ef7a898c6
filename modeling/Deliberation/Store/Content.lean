import Deliberation.Ancestry
import Deliberation.Like
import Deliberation.Model.Change
import Deliberation.Store.Read

/-!
Which posts belong to ideas. A post is tied to an idea by a positive content link, and then stands
for the whole thread below it: it is a pivot, and all replies in its subtree are related to the idea
too. Hidden posts and hidden ideas do not count.
-/

namespace Deliberation.Store

/-- Whether a post lies in the reply subtree of another one; each post lies in its own. -/
def liesUnder (root sub : Id × PostRow) : Bool :=
  sub.1 == root.1 ||
    (sub.2.ancestry != "" &&
      Like.accepts (Ancestry.child root.2.ancestry root.1 ++ "%").toList sub.2.ancestry.toList)

/-- Whether an idea of the discussion is there for all to see: neither deleted nor hidden. -/
def isVisibleIdeaOf (store : Store) (discussion id : Id) : Bool :=
  match store.ideas.get? id with
  | some row => row.isLive && !row.hidden && row.discussion == discussion
  | none => false

/-- Whether a tie puts its post under one of the chosen ideas. -/
def ContentRow.isPivotal (isChosen : Id → Bool) (row : ContentRow) : Bool :=
  row.kind.isPositive && row.idea.any isChosen

def pivots (store : Store) (isChosen : Id → Bool) : List (Id × PostRow) :=
  store.posts.entries.filter fun entry =>
    store.contents.rows.any fun row => row.isPivotal isChosen && row.post == entry.1

def visiblePosts (store : Store) (discussion : Id) : List (Id × PostRow) :=
  store.posts.entries.filter fun entry => entry.2.discussion == discussion && !entry.2.hidden

structure Related where
  pivot : Id
  post : Id
  author : Id
deriving DecidableEq, Repr

/-- The posts of a discussion that are related to some of its ideas, once for each pivot. -/
def related (store : Store) (discussion : Id) (ideas : List Id) : List Related :=
  (store.pivots fun idea => ideas.contains idea && store.isVisibleIdeaOf discussion idea).flatMap
    fun root => ((store.visiblePosts discussion).filter (liesUnder root)).map
      fun sub => ⟨root.1, sub.1, sub.2.creator⟩

/-- The posts of a discussion that are related to some of its ideas. -/
def relatedPosts (store : Store) (discussion : Id) (ideas : List Id) : List Id :=
  ascending ((store.related discussion ideas).map (·.post))

/-- Whether an action says that an agent has read a post, and has not been taken back. -/
def ActionRow.isReading (agent post : Id) (row : ActionRow) : Bool :=
  row.isLive && row.kind == .read && row.actor == agent && row.post == post

/-- The readings of a post by the user, each told as the post that was read; a single gap where
there are none. Nobody has read anything. -/
def readings (store : Store) (user : Option Id) (post : Id) : List (Option Id) :=
  match store.actions.rows.filter fun row => user.any fun agent => row.isReading agent post with
  | [] => [none]
  | found => found.map fun row => some row.post

/-- The posts related to some ideas beside their readings by the user: a line for each pivot and
each reading. -/
def relatedReadings (store : Store) (discussion : Id) (ideas : List Id) (user : Option Id) :
    List (Id × Option Id) :=
  (store.related discussion ideas).flatMap fun pair =>
    (store.readings user pair.post).map fun reading => (pair.post, reading)

/-- How many posts are related to some ideas, and how many of them the user has read. A post counts
once, however many pivots it has and however often it was read. -/
def relatedCounts (store : Store) (discussion : Id) (ideas : List Id) (user : Option Id) :
    PostCounts :=
  let lines := store.relatedReadings discussion ideas user
  ⟨(ascending (lines.map (·.1))).length, (ascending (lines.filterMap (·.2))).length⟩

def postCount (store : Store) (discussion : Id) : Nat := (store.visiblePosts discussion).length

/-- The posts of a discussion that belong to none of its ideas, by id. A synthesis belongs to the
discussion as a whole. -/
def orphans (store : Store) (discussion : Id) : List Id :=
  let roots := store.pivots (store.isVisibleIdeaOf discussion)
  ((store.visiblePosts discussion).filter fun entry =>
    entry.2.kind != .legible .synthesis && !roots.any fun root => liesUnder root entry).map (·.1)

/-- How many syntheses a discussion has, hidden ones included. -/
def synthesisCount (store : Store) (discussion : Id) : Nat :=
  (store.posts.rows.filter fun row =>
    row.discussion == discussion && row.kind == .legible .synthesis).length

/-- The contributions in some pairs of a pivot and a post, by author. -/
def contributionsOf (pairs : List Related) : List Contribution :=
  (ascending (pairs.map (·.author))).filterMap fun agent =>
    let own := pairs.filter fun pair => pair.author == agent
    let posts := ascending (own.map (·.post))
    posts.head?.map fun first =>
      ⟨agent, (ascending (own.map (·.pivot))).length, posts.length, first⟩

def contributions (store : Store) (discussion : Id) (ideas : List Id) : List Contribution :=
  contributionsOf (store.related discussion ideas)

/-- What each author has contributed to the important extracts of some ideas. The extracts
themselves are the pivots. -/
def extractContributions (store : Store) (ideas : List Id) : List Contribution :=
  let extracts := store.contents.entries.filter fun entry =>
    entry.2.kind == .extract && entry.2.important &&
      entry.2.idea.any fun idea => ideas.contains idea && store.isLiveIdea idea
  contributionsOf (extracts.filterMap fun entry =>
    (store.posts.get? entry.2.post).map fun post => ⟨entry.1, entry.2.post, post.creator⟩)

/-- The live ideas to which a post, or a post above it, is tied. -/
def ideasOfThread (store : Store) (post : Id) : Except Error (List Id) := do
  match ← store.findPost post with
  | none => return []
  | some found =>
    let thread := Ancestry.ids found.ancestry ++ [found.id]
    return ascending ((store.contents.rows.filter fun row =>
      row.kind.isPositive && thread.contains row.post).filterMap fun row =>
        row.idea.filter store.isLiveIdea)

end Deliberation.Store
