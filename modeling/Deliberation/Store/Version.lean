import Deliberation.Decimal
import Deliberation.Error

/-!
Versions of ideas as they are stored. Their column is meant for whole numbers of 64 bits. It makes
such a number of whatever it can, but it keeps other numbers as floating ones, and text that is no
number as text.
-/

namespace Deliberation.Store

inductive Version where
  | whole (n : Int)
  | floating (x : Float)
  | illegible (text : String)

namespace Version

/-- What the column makes of a floating number: a whole number, if the number is one and lies within
the range of such numbers without being an end of it. -/
def ofFloat (x : Float) : Version :=
  match Decimal.whole? x with
  | some n => if Id.least < n ∧ n < Id.greatest then .whole n else .floating x
  | none => .floating x

def isBlank (c : Char) : Bool := c == ' ' || (9 ≤ c.toNat && c.toNat ≤ 13)

def sign : List Char → Bool × List Char
  | '-' :: cs => (true, cs)
  | '+' :: cs => (false, cs)
  | cs => (false, cs)

/-- The digits after the point that `cs` begins with, and the rest; none if there is no point. -/
def fraction? : List Char → Option (List Char × List Char)
  | '.' :: cs => some (cs.takeWhile Numeral.isDecimal, cs.dropWhile Numeral.isDecimal)
  | _ => none

/-- The exponent that `cs` begins with, and the rest; none if there is no whole one. -/
def exponent? : List Char → Option (Int × List Char)
  | c :: cs =>
    if c = 'e' ∨ c = 'E' then
      let (negative, cs) := sign cs
      (Numeral.nat? 10 (cs.takeWhile Numeral.isDecimal)).map fun n =>
        (if negative then -(n : Int) else n, cs.dropWhile Numeral.isDecimal)
    else none
  | [] => none

/-- The number with the given sign and digits: a whole number if it is one of 64 bits. -/
def ofDigits (negative : Bool) (digits : Nat) : Version :=
  let n : Int := if negative then -(digits : Int) else digits
  if Id.InRange n then .whole n else .floating (Decimal.nearest negative digits 0)

/-- The number that `cs` begins with, blanks before it aside, and the rest; none if it begins with
none. -/
def leading? (cs : List Char) : Option (Version × List Char) := do
  let (negative, cs) := sign (cs.dropWhile isBlank)
  let integral := cs.takeWhile Numeral.isDecimal
  let afterIntegral := cs.dropWhile Numeral.isDecimal
  let (fraction, afterFraction) := (fraction? afterIntegral).getD ([], afterIntegral)
  let digits ← Numeral.nat? 10 (integral ++ fraction)
  match exponent? afterFraction with
  | some (power, rest) =>
    return (.floating (Decimal.nearest negative digits (power - fraction.length)), rest)
  | none =>
    if (fraction? afterIntegral).isSome then
      return (.floating (Decimal.nearest negative digits (-fraction.length)), afterFraction)
    else return (ofDigits negative digits, afterFraction)

def ofText (text : String) : Version :=
  match leading? text.toList with
  | some (.floating x, rest) => if rest.all isBlank then ofFloat x else .illegible text
  | some (number, rest) => if rest.all isBlank then number else .illegible text
  | none => .illegible text

/-- The whole number after `n`. Past the last one of 64 bits it is a floating number. -/
def after (n : Int) : Version :=
  if n < Id.greatest then .whole (n + 1) else ofFloat (Decimal.ofInt n + 1)

/-- The next version. A text counts as the number that it begins with, or else as zero. -/
def next : Version → Version
  | .whole n => after n
  | .floating x => ofFloat (x + 1)
  | .illegible text =>
    match leading? text.toList with
    | some (.whole n, _) => after n
    | some (.floating x, _) => ofFloat (x + 1)
    | _ => after 0

/-- Reads a version out of the given column: a natural number of 32 bits. -/
def read (column : Nat) : Version → Except DatabaseFault Nat
  | .whole n =>
    if 0 ≤ n ∧ n < 4294967296 then .ok n.toNat else .error (.outOfRange column n)
  | .floating _ => .error (.notWhole .floating column "version")
  | .illegible _ => .error (.notWhole .text column "version")

end Version

end Deliberation.Store
