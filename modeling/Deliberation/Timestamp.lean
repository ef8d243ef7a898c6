import Deliberation.Calendar
import Deliberation.Numeral
import Deliberation.Text.Blank

/-!
Instants of time and their text in the form of RFC 3339. Stored dates are read strictly. Dates
inside data documents are read loosely: blanks may stand between the parts, and a number may have
fewer digits.
-/

namespace Deliberation

structure Timestamp where
  /-- Seconds from 1970-01-01T00:00:00Z. -/
  seconds : Int
  /-- Nanoseconds within the second; a thousand million and more lie in a leap second. -/
  nanos : Nat
deriving DecidableEq, Repr, Inhabited

namespace Timestamp

def nanosPerSecond : Nat := 1000000000

inductive Form where
  | strict
  | loose
deriving DecidableEq

def gap (form : Form) (cs : List Char) : List Char :=
  match form with
  | .strict => cs
  | .loose => Text.skipBlanks cs

def number? (least most : Nat) (cs : List Char) : Option (Nat × List Char) :=
  let digits := (cs.take most).takeWhile Numeral.isDecimal
  if digits.length < least then none
  else (Numeral.nat? 10 digits).map fun n => (n, cs.drop digits.length)

/-- A two-digit field between `low` and `high`; a loose text may write it with one digit. -/
def field? (form : Form) (low high : Nat) (cs : List Char) : Option (Nat × List Char) := do
  let (n, rest) ← number? (if form = .strict then 2 else 1) 2 (gap form cs)
  if low ≤ n ∧ n ≤ high then some (n, rest) else none

def mark? (form : Form) (c : Char) (cs : List Char) : Option (List Char) :=
  match gap form cs with
  | d :: rest => if d = c then some rest else none
  | [] => none

def firstYear : Int := -262143

def lastYear : Int := 262142

/-- The year has four digits. In a loose text it may have fewer, or a sign and any number of
them. -/
def year? (form : Form) (cs : List Char) : Option (Int × List Char) :=
  match form, gap form cs with
  | .strict, cs => (number? 4 4 cs).map fun (n, rest) => (n, rest)
  | .loose, '-' :: cs => (number? 1 cs.length cs).map fun (n, rest) => (-n, rest)
  | .loose, '+' :: cs => (number? 1 cs.length cs).map fun (n, rest) => (n, rest)
  | .loose, cs => (number? 1 4 cs).map fun (n, rest) => (n, rest)

/-- The fraction of a second in nanoseconds. Digits past the ninth are dropped. -/
def fraction? : List Char → Option (Nat × List Char)
  | '.' :: cs =>
    let digits := cs.takeWhile Numeral.isDecimal
    let kept := digits.take 9
    (Numeral.nat? 10 kept).map fun n => (n * Nat.pow 10 (9 - kept.length), cs.drop digits.length)
  | cs => some (0, cs)

/-- The minutes of an offset: two digits, the first at most five. -/
def offsetMinutes? : List Char → Option (Nat × List Char)
  | m :: n :: rest => (Numeral.nat? 10 [m, n]).bind fun v => if v < 60 then some (v, rest) else none
  | _ => none

/-- What may stand between the hours and the minutes of an offset. -/
def offsetSeparator? (form : Form) (cs : List Char) : Option (List Char) :=
  match form with
  | .strict => mark? .strict ':' cs
  | .loose => some (cs.dropWhile fun c => c == ':' || Text.isBlank c)

/-- The sign in front of an offset: a hyphen or the minus sign of typography is negative. -/
def offsetSign? : List Char → Option (Int × List Char)
  | '+' :: cs => some (1, cs)
  | '-' :: cs => some (-1, cs)
  | '−' :: cs => some (-1, cs)
  | _ => none

/-- An offset from universal time in minutes, at most 23:59 either way. -/
def signedOffset? (form : Form) (cs : List Char) : Option (Int × List Char) := do
  let (sign, cs) ← offsetSign? cs
  let (hours, cs) ← number? 2 2 cs
  let cs ← offsetSeparator? form cs
  let (minutes, cs) ← offsetMinutes? cs
  if hours ≤ 23 then some (sign * (60 * hours + minutes), cs) else none

/-- The offset from universal time in minutes: `Z`, or a signed number of hours and minutes. A loose
text may also say `UTC`. -/
def offset? (form : Form) (cs : List Char) : Option (Int × List Char) :=
  let cs := gap form cs
  if form = .loose ∧ (cs.take 3).map Char.toUpper = ['U', 'T', 'C'] then some (0, cs.drop 3)
  else match cs with
    | 'Z' :: rest => some (0, rest)
    | 'z' :: rest => some (0, rest)
    | _ => signedOffset? form cs

def read? (form : Form) (cs : List Char) : Option Timestamp := do
  let (year, cs) ← year? form cs
  let cs ← mark? form '-' cs
  let (month, cs) ← field? form 1 12 cs
  let cs ← mark? form '-' cs
  let (day, cs) ← field? form 1 31 cs
  let cs ← match cs with
    | c :: rest => if c = 'T' ∨ c = 't' ∨ c = ' ' then some rest else none
    | [] => none
  let (hour, cs) ← field? form 0 23 cs
  let cs ← mark? form ':' cs
  let (minute, cs) ← field? form 0 59 cs
  let cs ← mark? form ':' cs
  let (second, cs) ← field? form 0 60 cs
  let (nanos, cs) ← fraction? cs
  let (offset, cs) ← offset? form cs
  let date : Calendar.Date := ⟨year, month, day⟩
  if ¬ (gap form cs).isEmpty ∨ ¬ date.Exists then none
  else
    let leap := second == 60
    let seconds := date.toDays * 86400 + hour * 3600 + (minute - offset) * 60 +
      (if leap then 59 else second)
    let inUtc := Calendar.Date.ofDays (seconds / 86400)
    if firstYear ≤ year ∧ year ≤ lastYear ∧ firstYear ≤ inUtc.year ∧ inUtc.year ≤ lastYear then
      some ⟨seconds, if leap then nanos + nanosPerSecond else nanos⟩
    else none

def ofStored? (text : String) : Option Timestamp :=
  read? .strict text.toList

def ofText? (text : String) : Option Timestamp :=
  read? .loose text.toList

def padded (width n : Nat) : String :=
  let digits := toString n
  "".pushn '0' (width - digits.length) ++ digits

/-- A year has four digits; outside the first ten thousand years it has a sign too. -/
def yearText (year : Int) : String :=
  if 0 ≤ year ∧ year ≤ 9999 then padded 4 year.toNat
  else (if year < 0 then "-" else "+") ++ padded 4 year.natAbs

/-- The fraction of a second with as few digits as needed, in groups of three. -/
def fractionText (nanos : Nat) : String :=
  if nanos = 0 then ""
  else if nanos % 1000000 = 0 then "." ++ padded 3 (nanos / 1000000)
  else if nanos % 1000 = 0 then "." ++ padded 6 (nanos / 1000)
  else "." ++ padded 9 nanos

def text (t : Timestamp) : String :=
  let date := Calendar.Date.ofDays (t.seconds / 86400)
  let ofDay := (t.seconds % 86400).toNat
  let leap := nanosPerSecond ≤ t.nanos
  let second := ofDay % 60 + if leap then 1 else 0
  yearText date.year ++ "-" ++ padded 2 date.month ++ "-" ++ padded 2 date.day ++ "T" ++
    padded 2 (ofDay / 3600) ++ ":" ++ padded 2 (ofDay / 60 % 60) ++ ":" ++ padded 2 second ++
    fractionText (t.nanos % nanosPerSecond) ++ "Z"

end Timestamp

end Deliberation
