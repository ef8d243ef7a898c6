import Deliberation.Text.Clean
import Deliberation.Text.Word
import Deliberation.Words.StopWords
import Deliberation.Words.Weight

/-!
Weighted word counts. A counter takes marked-up texts, each with a weight, and adds up for every
word the weights of its occurrences. Its ranking lists the heaviest words first and equally heavy
ones by the alphabet.
-/

namespace Deliberation.Words

structure Counter where
  locales : List String
  leastLength : Nat
  entries : List (String × Weight) := []

/-- `entries` with `weight` added to that of `word`; a new word starts from zero. -/
def addWeight (weight : Weight) (word : String) : List (String × Weight) → List (String × Weight)
  | [] => [(word, Weight.zero.add weight)]
  | (known, sum) :: rest =>
    if known = word then (known, sum.add weight) :: rest
    else (known, sum) :: addWeight weight word rest

namespace Counter

/-- The words of marked-up text that the counter keeps, in order and with repetitions. -/
def keptWords (counter : Counter) (text : String) : List String :=
  (Text.words counter.leastLength (Text.clean text)).filter fun word =>
    !isStopWord counter.locales word

/-- Adds `weight` for every kept word of `text`. A weight of zero or less adds nothing. -/
def addText (counter : Counter) (text : String) (weight : Weight) : Counter :=
  if weight.counts then { counter with
    entries := (counter.keptWords text).foldl (fun entries word => addWeight weight word entries)
      counter.entries }
  else counter

/-- The weight of a word; zero for a word that was never counted. -/
def weight (counter : Counter) (word : String) : Weight :=
  (counter.entries.lookup word).getD .zero

def isEmpty (counter : Counter) : Bool := counter.entries.isEmpty

/-- Whether `a` may stand before `b` in a ranking: it is heavier, or not lighter and not later in
the alphabet. -/
def ranksBefore (a b : String × Weight) : Bool :=
  if b.2.isLess a.2 then true
  else if a.2.isLess b.2 then false
  else decide (a.1 ≤ b.1)

def ranking (counter : Counter) : List (String × Weight) :=
  counter.entries.mergeSort ranksBefore

def best (counter : Counter) (n : Nat) : List String :=
  (counter.ranking.take n).map Prod.fst

end Counter

end Deliberation.Words
