import Deliberation.Id

/-!
Reply paths. The ancestry of a post lists the ids of the posts above it, thread root first, each
followed by a comma: a reply to post 7, which itself replies to post 3, has the ancestry `3,7,`. A
thread root has the empty ancestry. Lying below a post is then a question of how an ancestry begins.
-/

namespace Deliberation.Ancestry

def separator : Char := ','

/-- The ancestry of a reply to post `parent`, whose own ancestry is `above`. -/
def child (above : String) (parent : Id) : String :=
  above ++ parent.text ++ String.singleton separator

def ofIds (ids : List Id) : String :=
  ids.foldl child ""

/-- The parts of `cs` between separators, empty parts included. -/
def parts : List Char → List (List Char)
  | [] => [[]]
  | c :: cs =>
    if c = separator then [] :: parts cs
    else match parts cs with
      | [] => [[c]]
      | first :: rest => (c :: first) :: rest

/-- The ids that an ancestry names, thread root first. Parts that are no ids are passed over. -/
def ids (ancestry : String) : List Id :=
  (parts ancestry.toList).filterMap Id.ofChars?

/-- The database condition under which the post row named `sub` lies in the reply subtree of the
post row named `root`; a post lies in its own subtree. -/
def subtreeCondition (sub root : String) : String :=
  "(" ++ sub ++ ".id = " ++ root ++ ".id OR (" ++ sub ++ ".ancestry != '' AND " ++ sub ++
    ".ancestry LIKE " ++ root ++ ".ancestry || " ++ root ++ ".id || '" ++
    String.singleton separator ++ "%'))"

end Deliberation.Ancestry
