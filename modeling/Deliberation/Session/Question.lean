import Deliberation.Aggregation.Words
import Deliberation.Session.Basic

/-!
Questions to a database. A question looks at the tables in an order of its own; where the
connections for reading find no tables, it fails at the first one that it needs.
-/

namespace Deliberation

inductive TableName where
  | discussions
  | ideas
  | links
  | posts
  | contents
deriving DecidableEq, Repr

def TableName.text : TableName → String
  | .discussions => "discussion"
  | .ideas => "idea"
  | .links => "idea_idea_link"
  | .posts => "post"
  | .contents => "idea_content_link"

structure Question (α : Type) where
  /-- The table that is looked at first; none if no table is. -/
  first? : Option TableName
  answer : Store → Traced α

namespace Question

variable {α σ ρ : Type}

/-- A question that looks at a table first and is not logged. -/
def read (first : TableName) (find : Store → Except Error α) : Question α :=
  ⟨some first, fun store => .ofExcept (find store)⟩

/-- A question that looks at a table first, is not logged, and cannot fail. -/
def look (first : TableName) (find : Store → α) : Question α :=
  read first fun store => .ok (find store)

/-- A question about some ids, which is answered without looking if there are none. -/
def about (ids : List Id) (first : TableName) (answer : Store → Traced α) : Question α :=
  ⟨if ids.isEmpty then none else some first, answer⟩

/-! ## Rows -/

def discussion (id : Id) : Question (Option Discussion) := read .discussions (·.findDiscussion id)

def idea (id : Id) : Question (Option Idea) := read .ideas (·.findIdea id)

def link (id : Id) : Question (Option Link) := read .links (·.findLink id)

def post (id : Id) : Question (Option Post) := read .posts (·.findPost id)

def posts (ids : List Id) : Question (List Post) :=
  about ids .posts fun store => .ofExcept (store.findPosts ids)

def rootIdea (discussion : Id) : Question (Option Idea) := read .ideas (·.findRoot discussion)

def discussionIdeas (discussion : Id) : Question (List Idea) :=
  read .ideas (·.discussionIdeas discussion)

def discussionLinks (discussion : Id) : Question (List Link) :=
  read .links (·.discussionLinks discussion)

/-! ## The graph of ideas -/

def firstParentLink (idea : Id) : Question (Option Link) := read .links (·.firstParentLink idea)

def childCount (idea : Id) : Question Nat := look .links (·.childCount idea)

def children (idea : Id) : Question (List Idea) := read .links (·.children idea)

def parents (idea : Id) : Question (List Idea) := read .links (·.parents idea)

def siblings (idea : Id) : Question (List Idea) := read .links (·.siblings idea)

def neighbors (ideas : List Id) (direction : Direction) : Question (List Id) :=
  about ideas .links fun store => return store.neighbors ideas direction

def closure (root : Id) (direction : Direction) (inclusive : Bool) : Question (List Id) :=
  ⟨some .links, fun store => store.closure root direction inclusive⟩

def descendants (strategy : ClosureStrategy) (root : Id) (inclusive : Bool) : Question (List Id) :=
  ⟨some .links, fun store => strategy.descendants store root inclusive⟩

/-- What is above some ideas. A strategy that does not look upward from several ideas refuses before
it looks at all. -/
def ancestors (strategy : ClosureStrategy) (targets : List Id) (inclusive : Bool) :
    Question (List Id) :=
  ⟨match strategy, targets with
    | _, [] => none
    | .native, _ :: _ :: _ => none
    | _, _ => some .links,
   fun store => strategy.ancestors store targets inclusive⟩

/-- A walk. What its visitor fails with is an answer too. -/
def visit (root : Id) (order : WalkOrder) (visitor : Visitor (Journaled σ) ρ) (state : σ) :
    Question (Except Error (Option ρ) × σ) :=
  ⟨some .ideas, fun store =>
    let (walk, last) := store.visit root order visitor state
    ⟨walk.entries, .ok (walk.result, last)⟩⟩

/-! ## Posts and words -/

def postCount (discussion : Id) : Question Nat := look .posts (·.postCount discussion)

def ideasOfThread (post : Id) : Question (List Id) := read .posts (·.ideasOfThread post)

def relatedPosts (discussion : Id) (ideas : List Id) : Question (List Id) :=
  about ideas .ideas fun store => return store.relatedPosts discussion ideas

def relatedCounts (discussion : Id) (ideas : List Id) (user : Option Id) : Question PostCounts :=
  about ideas .ideas fun store => return store.relatedCounts discussion ideas user

def contributions (discussion : Id) (ideas : List Id) : Question (List Contribution) :=
  about ideas .ideas fun store => return store.contributions discussion ideas

def extractContributions (ideas : List Id) : Question (List Contribution) :=
  about ideas .contents fun store => return store.extractContributions ideas

def aggregate (config : Config) (first : TableName) (ask : Aggregator → Traced α) : Question α :=
  ⟨some first, fun store => ask ⟨store, config.graph.strategy, config.analytics⟩⟩

def postsBelow (config : Config) (discussion idea : Id) : Question (List Id) :=
  aggregate config .links (·.relatedPosts discussion idea)

def postCountBelow (config : Config) (idea : Id) : Question Nat :=
  aggregate config .ideas (·.postCount idea)

/-- How many posts below an idea a user has read. For nobody the answer is known. -/
def readCountBelow (config : Config) (idea : Id) (user : Option Id) : Question Nat :=
  { aggregate config .ideas (·.readCount idea user) with
    first? := if user.isNone then none else some .ideas }

def postCountsBelow (config : Config) (idea : Id) (user : Option Id) : Question PostCounts :=
  aggregate config .ideas (·.postCounts idea user)

def orphans (config : Config) (discussion : Id) : Question (List Id) :=
  aggregate config .ideas (·.orphans discussion)

def orphanCount (config : Config) (discussion : Id) : Question Nat :=
  aggregate config .ideas (·.orphanCount discussion)

def synthesisCount (config : Config) (discussion : Id) : Question Nat :=
  aggregate config .posts (·.synthesisCount discussion)

def contributors (config : Config) (idea : Id) : Question (List Id) :=
  aggregate config .ideas (·.contributors idea)

def synthesisContributors (config : Config) (idea : Id) : Question (List Id) :=
  aggregate config .ideas (·.synthesisContributors idea)

def ideasShowing (config : Config) (post : Id) : Question (List Id) :=
  aggregate config .posts (·.ideasShowing post)

def readCountsOf (config : Config) (post : Id) (user : Option Id) : Question (List (Id × Nat)) :=
  aggregate config .posts (·.readCountsOf post user)

def definitionPreview (config : Config) (idea : Id) : Question (Option String) :=
  aggregate config .ideas (·.definitionPreview idea)

def mostCommonWords (config : Config) (idea : Id) (language : Option String) (count : Option Nat) :
    Question (List String) :=
  aggregate config .ideas (·.mostCommonWords idea language count)

def wordWeights (config : Config) (idea : Id) (locales : List String) (order : WalkOrder) :
    Question Words.Counter :=
  aggregate config .ideas (·.wordWeights idea locales order)

end Question

def Session.ask {α : Type} (question : Question α) : Attempt Session α := fun session =>
  match session.medium, question.first? with
  | .apart _, some table => (.error (.database (.noTable table.text)), session)
  | _, _ => log (question.answer session.store) session

end Deliberation
