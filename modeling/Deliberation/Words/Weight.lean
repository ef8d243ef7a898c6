import Deliberation.Binary64

/-!
Weights of words. A weight is a floating number, kept by its bits: a value that is no number has a
sign, and keeps it when something is added.
-/

namespace Deliberation.Words

structure Weight where
  bits : UInt64
deriving DecidableEq, Repr

namespace Weight

def ofFloat (x : Float) : Weight := ⟨x.toBits⟩

def toFloat (weight : Weight) : Float := Float.ofBits weight.bits

def zero : Weight := ⟨0⟩

def isNaN (weight : Weight) : Bool :=
  Binary64.exponent weight.bits + 1 == Binary64.exponentCount && Binary64.fraction weight.bits != 0

/-- The sum of two weights. If one of them is no number, the sum is the first such. -/
def add (a b : Weight) : Weight :=
  if a.isNaN then a else if b.isNaN then b else ofFloat (a.toFloat + b.toFloat)

/-- Whether a text with the weight adds something to its words. What is no number does. -/
def counts (weight : Weight) : Bool := !decide (weight.toFloat ≤ 0)

def isLess (a b : Weight) : Bool := decide (a.toFloat < b.toFloat)

end Weight

end Deliberation.Words
