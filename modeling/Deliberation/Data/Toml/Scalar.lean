import Deliberation.Calendar
import Deliberation.Data.Basic
import Deliberation.Decimal
import Deliberation.Numeral

/-!
Unquoted values of the format TOML: truth values, numbers, dates and times. Such a value is read as
a whole.
-/

namespace Deliberation.Toml

/-- The digits of `cs` without the underscores, each of which has to stand between two digits. -/
def digits? (isDigit : Char → Bool) : List Char → Option (List Char)
  | [] => none
  | [c] => if isDigit c then some [c] else none
  | c :: '_' :: rest => if isDigit c then (digits? isDigit rest).map (c :: ·) else none
  | c :: rest => if isDigit c then (digits? isDigit rest).map (c :: ·) else none

/-- The sign in front of a number, and whether it is a minus. -/
def sign : List Char → Bool × List Char
  | '-' :: cs => (true, cs)
  | '+' :: cs => (false, cs)
  | cs => (false, cs)

/-- The digits of a decimal whole number, which has no zeros in front. -/
def wholeDigits? (cs : List Char) : Option (List Char) :=
  match digits? Numeral.isDecimal cs with
  | some ('0' :: _ :: _) => none
  | other => other

def whole? (n : Int) : Option Data :=
  if -9223372036854775808 ≤ n ∧ n < 9223372036854775808 then some (.int n) else none

/-- A whole number without a sign in one of the bases that are powers of two. -/
def prefixed? (base : Nat) (cs : List Char) : Option Data := do
  let digits ← digits? (fun c => (Numeral.digitOf? base c).isSome) cs
  let n ← Numeral.nat? base digits
  whole? n

def int? : List Char → Option Data
  | '0' :: 'x' :: cs => prefixed? 16 cs
  | '0' :: 'o' :: cs => prefixed? 8 cs
  | '0' :: 'b' :: cs => prefixed? 2 cs
  | cs => do
    let (negative, cs) := sign cs
    let digits ← wholeDigits? cs
    let n ← Numeral.nat? 10 digits
    whole? (if negative then -(n : Int) else n)

def exponent? (cs : List Char) : Option Int := do
  let (negative, cs) := sign cs
  let digits ← digits? Numeral.isDecimal cs
  let n ← Numeral.nat? 10 digits
  return if negative then -(n : Int) else n

def isExponentMark (c : Char) : Bool := c == 'e' || c == 'E'

/-- Reads the fraction and the exponent of a number: the digits of the one, and the other. -/
def fractionAndExponent? : List Char → Option (List Char × Int)
  | '.' :: cs => do
    let fraction ← digits? Numeral.isDecimal (cs.takeWhile fun c => !isExponentMark c)
    match cs.dropWhile fun c => !isExponentMark c with
    | [] => return (fraction, 0)
    | _ :: rest => return (fraction, ← exponent? rest)
  | c :: cs => if isExponentMark c then (exponent? cs).map fun e => ([], e) else none
  | [] => none

/-- Reads a number with a fraction or an exponent. A number past all floating numbers is refused if
it is positive, and negative infinity if it is negative. -/
def decimal? (cs : List Char) : Option Data := do
  let (negative, cs) := sign cs
  let whole ← wholeDigits? (cs.takeWhile fun c => c != '.' && !isExponentMark c)
  let (fraction, e) ← fractionAndExponent? (cs.dropWhile fun c => c != '.' && !isExponentMark c)
  let digits ← Numeral.nat? 10 (whole ++ fraction)
  let x := Decimal.nearest negative digits (e - fraction.length)
  if x.isFinite ∨ negative then some (.float x) else none

def wordNumber? (cs : List Char) : Option Data :=
  let (negative, cs) := sign cs
  match String.ofList cs with
  | "inf" => some (.float (if negative then -(1 / 0) else 1 / 0))
  | "nan" => some (.float (if negative then -(0 / 0) else 0 / 0))
  | _ => none

def twoDigits? (c d : Char) : Option Nat := Numeral.nat? 10 [c, d]

def isDate : List Char → Bool
  | [y, e, a, r, '-', m, n, '-', d, f] =>
    match Numeral.nat? 10 [y, e, a, r], twoDigits? m n, twoDigits? d f with
    | some year, some month, some day => decide (Calendar.Date.Exists ⟨year, month, day⟩)
    | _, _, _ => false
  | _ => false

def afterTime? : List Char → Option (List Char)
  | h :: o :: ':' :: m :: i :: ':' :: s :: e :: rest =>
    match twoDigits? h o, twoDigits? m i, twoDigits? s e with
    | some hour, some minute, some second =>
      if 23 < hour ∨ 59 < minute ∨ 60 < second then none
      else match rest with
        | '.' :: more =>
          match more.takeWhile Numeral.isDecimal with
          | [] => none
          | _ => some (more.dropWhile Numeral.isDecimal)
        | _ => some rest
    | _, _, _ => none
  | _ => none

def isOffset : List Char → Bool
  | [] => true
  | [c] => c == 'Z' || c == 'z'
  | [s, h, o, ':', m, i] =>
    (s == '+' || s == '-') &&
      match twoDigits? h o, twoDigits? m i with
      | some hour, some minute => hour ≤ 23 && minute ≤ 59
      | _, _ => false
  | _ => false

/-- Whether `cs` is a time of the day with or without an offset. -/
def isTimeWithOffset (cs : List Char) : Bool :=
  match afterTime? cs with
  | some rest => isOffset rest
  | none => false

def isInstant (cs : List Char) : Bool :=
  isDate cs || afterTime? cs == some [] ||
    match cs.drop 10 with
    | c :: time => isDate (cs.take 10) && (c == 'T' || c == 't' || c == ' ') &&
        isTimeWithOffset time
    | [] => false

def instant? (cs : List Char) : Option Data :=
  if isInstant cs then some (.record [("instant", .text (String.ofList cs))]) else none

def scalar? (cs : List Char) : Option Data :=
  match String.ofList cs with
  | "true" => some (.bool true)
  | "false" => some (.bool false)
  | _ => (instant? cs).orElse fun _ => (wordNumber? cs).orElse fun _ =>
    (decimal? cs).orElse fun _ => int? cs

end Deliberation.Toml
