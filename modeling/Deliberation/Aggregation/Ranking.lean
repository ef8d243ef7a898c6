import Deliberation.Config.Basic
import Deliberation.Model.Change

/-!
Rankings of contributors. A ranking compares a few numbers one after another, the first difference
decides, and contributions that agree in all of them stay in the order in which they are given.
-/

namespace Deliberation.Ranking

/-- Whether a list of numbers comes before or at another one in the order of dictionaries. -/
def precedes : List Int → List Int → Bool
  | [], _ => true
  | _ :: _, [] => false
  | a :: as, b :: bs => if a = b then precedes as bs else decide (a < b)

def tieKey (tieBreak : TieBreak) (contribution : Contribution) : List Int :=
  match tieBreak with
  | .firstContribution => [contribution.firstPost, contribution.agent]
  | .agentId => [contribution.agent]

def key (tieBreak : TieBreak) (contribution : Contribution) : List Int :=
  -contribution.pivots :: -contribution.posts :: tieKey tieBreak contribution

def synthesisKey (tieBreak : TieBreak) (contribution : Contribution) : List Int :=
  -contribution.pivots :: tieKey tieBreak contribution

def byKey (key : Contribution → List Int) (contributions : List Contribution) : List Id :=
  (contributions.mergeSort fun a b => precedes (key a) (key b)).map (·.agent)

def contributors (tieBreak : TieBreak) : List Contribution → List Id := byKey (key tieBreak)

def synthesisContributors (tieBreak : TieBreak) : List Contribution → List Id :=
  byKey (synthesisKey tieBreak)

end Deliberation.Ranking
