import Deliberation.Binary64
import Deliberation.Error

/-!
Places among siblings. A place is a floating number of 64 bits, kept by its bits: places are put in
the total order of such numbers, in which a negative zero comes before the positive one, and in
which values that are not a number stand at the ends, those with a minus first.
-/

namespace Deliberation

structure Place where
  bits : UInt64
deriving DecidableEq, Repr

namespace Place

def ofFloat (x : Float) : Place := ⟨x.toBits⟩

def toFloat (place : Place) : Float := Float.ofBits place.bits

def zero : Place := ⟨0⟩

def negativeZero : Place := ⟨0x8000000000000000⟩

def nonFinite? (place : Place) : Option NonFinite :=
  if Binary64.exponent place.bits + 1 < Binary64.exponentCount then none
  else if Binary64.fraction place.bits ≠ 0 then some .nan
  else if Binary64.isNegative place.bits then some .negativeInfinite
  else some .infinite

def rank (place : Place) : Int :=
  let bits : Int := place.bits.toNat
  if Binary64.isNegative place.bits then Binary64.signUnit - 1 - bits else bits

/-- The place as it is stored: a zero has no sign. -/
def stored (place : Place) : Place := if place = negativeZero then zero else place

/-- Whether what has place `a` and number `m` may stand before what has place `b` and number `n`:
equal places go by number. -/
def isBefore (a : Place) (m : Id) (b : Place) (n : Id) : Bool :=
  if a.rank = b.rank then decide (m ≤ n) else decide (a.rank ≤ b.rank)

end Place

end Deliberation
