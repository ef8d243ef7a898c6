import Deliberation.Id
import Deliberation.Named
import Deliberation.Timestamp

/-!
Posts, their ties to ideas, and what agents do with them.
-/

namespace Deliberation

inductive PostKind where
  | assembl
  | synthesis
  | imported
deriving DecidableEq, Repr

instance : Named PostKind where
  all := [.assembl, .synthesis, .imported]
  name
    | .assembl => "assembl_post"
    | .synthesis => "synthesis_post"
    | .imported => "imported_post"

structure Post where
  id : Id
  discussion : Id
  kind : PostKind
  creator : Id
  parent : Option Id
  /-- The reply path down to the parent. -/
  ancestry : String
  subject : Option String
  body : Option String
  hidden : Bool
  created : Timestamp
deriving DecidableEq, Repr

structure NewPost where
  discussion : Id
  kind : PostKind := .assembl
  creator : Id
  parent : Option Id := none
  subject : Option String := none
  body : Option String := none
  hidden : Bool := false
deriving DecidableEq, Repr

inductive ContentKind where
  /-- The post belongs under the idea. -/
  | relatedPost
  /-- A part of the post was taken up for the idea. -/
  | extract
  /-- The post leaves the thread's context of the idea. -/
  | threadContextBreak
deriving DecidableEq, Repr

instance : Named ContentKind where
  all := [.relatedPost, .extract, .threadContextBreak]
  name
    | .relatedPost => "related_post"
    | .extract => "extract"
    | .threadContextBreak => "thread_context_break"

/-- Whether a tie of this kind places the post, and the replies to it, under the idea. -/
def ContentKind.isPositive : ContentKind → Bool
  | .relatedPost | .extract => true
  | .threadContextBreak => false

structure ContentLink where
  id : Id
  idea : Option Id
  post : Id
  kind : ContentKind
  /-- Says something about extracts only. -/
  important : Bool
  creator : Id
  created : Timestamp
deriving DecidableEq, Repr

structure NewContentLink where
  idea : Option Id := none
  post : Id
  kind : ContentKind
  important : Bool := false
  creator : Id
deriving DecidableEq, Repr

inductive ActionKind where
  | read
  | like
deriving DecidableEq, Repr

instance : Named ActionKind where
  all := [.read, .like]
  name
    | .read => "read"
    | .like => "like"

structure Action where
  id : Id
  kind : ActionKind
  actor : Id
  post : Id
  created : Timestamp
  tombstone : Option Timestamp
deriving DecidableEq, Repr

structure NewAction where
  kind : ActionKind
  actor : Id
  post : Id
deriving DecidableEq, Repr

end Deliberation
