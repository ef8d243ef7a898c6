import Deliberation.Graph.Walk

/-!
Two visitors for looking at walks: one that writes down every call that it gets, and one that
answers every idea with its id.
-/

namespace Deliberation

inductive Call where
  | visited (idea : Id) (level : Nat) (above : Option (List Id))
  | finished (idea : Id) (level : Nat) (own : Option (List Id)) (below : List (List Id))
deriving DecidableEq, Repr

structure Recorder where
  cut : List Id := []
  drop : List Id := []
  /-- Whether a cut idea comes to its negated id, rather than to nothing. -/
  keepCut : Bool := false
  failVisit : Option Id := none
  failEnd : Option Id := none
deriving DecidableEq, Repr

namespace Recorder

def log (call : Call) : Attempt (List Call) Unit := .modify fun calls => calls ++ [call]

/-- What an idea comes to, given its own value and what its children came to. -/
def answer (recorder : Recorder) (idea : Id) (own : Option (List Id)) (below : List (List Id)) :
    Option (List Id) :=
  if recorder.drop.contains idea then none
  else (own <|> if recorder.keepCut then some [idea.opposite] else none).map (· ++ below.flatten)

def visitor (recorder : Recorder) : Visitor (List Call) (List Id) where
  visit idea level above := do
    log (.visited idea.id level above)
    if recorder.failVisit = some idea.id then
      .fail (.validation (.told ("visit " ++ idea.id.text)))
    else if recorder.cut.contains idea.id then return .cut
    else return .proceed [idea.id]
  finish idea level own below := do
    log (.finished idea.id level own below)
    if recorder.failEnd = some idea.id then .fail (.validation (.told ("end " ++ idea.id.text)))
    else return recorder.answer idea.id own below

end Recorder

def Visitor.ids : Visitor Unit Id where
  visit idea _ _ := return .proceed idea.id
  finish _ _ own _ := return own

end Deliberation
