import Deliberation.Decimal

/-!
The shortest decimal text of a floating number: the fewest digits that read back as the number. A
finite number is a whole number of some power of ten; it is rounded to one digit, to two, and so on,
until the rounded number is nearest to none but itself.
-/

namespace Deliberation.Decimal

structure Scaled where
  digits : Nat
  power : Int
deriving DecidableEq, Repr

def magnitude (x : Float) : Scaled :=
  let (m, q) := parts x
  if 0 ≤ q then ⟨m * Nat.pow 2 q.natAbs, 0⟩ else ⟨m * Nat.pow 5 q.natAbs, q⟩

namespace Scaled

def length (s : Scaled) : Nat := (toString s.digits).length

/-- The number rounded to at most `count` digits; a half goes to the even neighbour. -/
def rounded (s : Scaled) (count : Nat) : Scaled :=
  let surplus := s.length - count
  let unit := Nat.pow 10 surplus
  let quotient := s.digits / unit
  let double := 2 * (s.digits % unit)
  let up := unit < double || (double == unit && quotient % 2 == 1)
  ⟨if up then quotient + 1 else quotient, s.power + surplus⟩

def toFloat (s : Scaled) : Float := nearest false s.digits s.power

end Scaled

def mostDigits : Nat := 17

/-- The fewest digits that read back as the magnitude of a finite number. -/
def shortest (x : Float) : Scaled :=
  let whole := magnitude x
  let found := (List.range mostDigits).findSome? fun n =>
    let short := whole.rounded (n + 1)
    if short.toFloat.toBits = x.abs.toBits then some short else none
  found.getD whole

/-- The digits of a number without the zeros at their end, and where the point stands among them. -/
def pointed (s : Scaled) : List Char × Int :=
  let digits := (toString s.digits).toList
  ((digits.reverse.dropWhile (· == '0')).reverse, digits.length + s.power)

/-- The digits `cs` with the point before them, among them, or after them, where zeros fill the
gap. -/
def positional (cs : List Char) (point : Int) : String :=
  if point ≤ 0 then "0." ++ "".pushn '0' point.natAbs ++ String.ofList cs
  else
    let before := cs.take point.toNat
    let behind := cs.drop point.toNat
    String.ofList before ++ "".pushn '0' (point.toNat - before.length) ++ "." ++
      (if behind.isEmpty then "0" else String.ofList behind)

/-- The digits `cs` with the point after the first one, and an exponent. -/
def scientific (cs : List Char) (point : Int) : String :=
  let behind := cs.drop 1
  String.ofList (cs.take 1) ++ (if behind.isEmpty then "" else "." ++ String.ofList behind) ++
    "e" ++ toString (point - 1)

end Deliberation.Decimal
