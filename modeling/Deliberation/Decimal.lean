import Deliberation.Numeral
import Deliberation.Binary64

/-!
Floating numbers and their decimal text. A decimal is read as the nearest floating number. A finite
floating number is written with all its digits, so that nothing is rounded and the text reads back
as the same number.
-/

namespace Deliberation.Decimal

/-- The floating number nearest to `digits * 10 ^ exponent`, with its sign. Numbers of many hundred
digits are settled by their size alone. -/
def nearest (negative : Bool) (digits : Nat) (exponent : Int) : Float :=
  let size : Int := (toString digits).length + exponent
  let magnitude : Float :=
    if digits = 0 ∨ size < -400 then 0
    else if 400 < size then 1 / 0
    else if exponent < 0 then Float.ofScientific digits true exponent.natAbs
    else Float.ofScientific digits false exponent.natAbs
  if negative then -magnitude else magnitude

def ofInt (n : Int) : Float := nearest (n < 0) n.natAbs 0

/-- The mantissa and the binary exponent of the magnitude of a finite number: `m * 2 ^ q`. -/
def parts (x : Float) : Nat × Int :=
  let fraction := Binary64.fraction x.toBits
  let exponent := Binary64.exponent x.toBits
  if exponent = 0 then (fraction, -1074)
  else (fraction + Binary64.exponentUnit, (exponent : Int) - 1075)

/-- The whole number that a floating number is, if it is one. -/
def whole? (x : Float) : Option Int :=
  if x.isFinite then
    let (m, q) := parts x
    let sign : Int := if Binary64.isNegative x.toBits then -1 else 1
    let unit := Nat.pow 2 q.natAbs
    if 0 ≤ q then some (sign * (m * unit : Nat))
    else if m % unit = 0 then some (sign * (m / unit : Nat))
    else none
  else none

/-- The decimal text of `n / 10 ^ places`, with at least one digit on either side of the point. -/
def fixedPoint (n places : Nat) : String :=
  let unit := Nat.pow 10 places
  let fraction := toString (n % unit)
  toString (n / unit) ++ "." ++ "".pushn '0' (places - fraction.length) ++ fraction

def exact (x : Float) : String :=
  let (m, q) := parts x
  let magnitude :=
    if 0 ≤ q then fixedPoint (m * Nat.pow 2 q.natAbs * 10) 1
    else fixedPoint (m * Nat.pow 5 q.natAbs) q.natAbs
  if Binary64.isNegative x.toBits then "-" ++ magnitude else magnitude

end Deliberation.Decimal
