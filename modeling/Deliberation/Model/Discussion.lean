import Deliberation.Id
import Deliberation.Timestamp

/-!
Discussions. A discussion owns one graph of ideas and the posts that are written about them.
-/

namespace Deliberation

structure Discussion where
  id : Id
  slug : String
  topic : String
  /-- Locales whose language decides how the discussion's text is processed. -/
  locales : List String
  created : Timestamp
deriving DecidableEq, Repr

structure NewDiscussion where
  slug : String
  topic : String
  locales : List String := []
deriving DecidableEq, Repr

end Deliberation
