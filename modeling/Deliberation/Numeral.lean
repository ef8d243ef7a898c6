/-!
Numerals as lists of digit characters: reading a whole number in a given base. A numeral is read
only as a whole; a character that is no digit of the base refuses it.
-/

namespace Deliberation.Numeral

/-- The value of a digit of base sixteen or less, in either case of the letters `a` to `f`. -/
def digit? (c : Char) : Option Nat :=
  if '0' ≤ c ∧ c ≤ '9' then some (c.toNat - '0'.toNat)
  else if 'a' ≤ c ∧ c ≤ 'f' then some (c.toNat - 'a'.toNat + 10)
  else if 'A' ≤ c ∧ c ≤ 'F' then some (c.toNat - 'A'.toNat + 10)
  else none

def digitOf? (base : Nat) (c : Char) : Option Nat :=
  (digit? c).filter (· < base)

/-- Whether `c` is one of the ten decimal digits of ASCII. -/
def isDecimal (c : Char) : Bool :=
  (digitOf? 10 c).isSome

def isHexadecimal (c : Char) : Bool :=
  (digitOf? 16 c).isSome

/-- The number written by `cs` after `high`, the digits already read. -/
def continue? (base high : Nat) : List Char → Option Nat
  | [] => some high
  | c :: cs => (digitOf? base c).bind fun d => continue? base (high * base + d) cs

/-- The number that `cs` writes in `base`; at least one digit is needed. -/
def nat? (base : Nat) : List Char → Option Nat
  | [] => none
  | c :: cs => continue? base 0 (c :: cs)

/-- The decimal number that `cs` writes, with an optional sign in front. -/
def int? : List Char → Option Int
  | '-' :: cs => (nat? 10 cs).map fun n => -(n : Int)
  | '+' :: cs => (nat? 10 cs).map Int.ofNat
  | cs => (nat? 10 cs).map Int.ofNat

end Deliberation.Numeral
