/-!
The proleptic Gregorian calendar: dates as a number of days from the first of January 1970, and
back.
-/

namespace Deliberation.Calendar

structure Date where
  year : Int
  month : Nat
  day : Nat
deriving DecidableEq, Repr

def isLeap (year : Int) : Bool :=
  year % 4 == 0 && (year % 100 != 0 || year % 400 == 0)

/-- The number of days of a month; no days for a month that does not exist. -/
def daysInMonth (year : Int) (month : Nat) : Nat :=
  match month with
  | 1 | 3 | 5 | 7 | 8 | 10 | 12 => 31
  | 4 | 6 | 9 | 11 => 30
  | 2 => if isLeap year then 29 else 28
  | _ => 0

/-- A date exists: its day is one of the days of its month. -/
def Date.Exists (date : Date) : Prop :=
  1 ≤ date.day ∧ date.day ≤ daysInMonth date.year date.month

instance (date : Date) : Decidable date.Exists := inferInstanceAs (Decidable (_ ∧ _))

/-- Days in an era of four hundred years. -/
def daysPerEra : Int := 146097

/-- The number of days from 1970-01-01 to a date. Years are counted from March, so that a leap day
is the last day of its year. -/
def Date.toDays (date : Date) : Int :=
  let year := if date.month ≤ 2 then date.year - 1 else date.year
  let era := year / 400
  let yearOfEra := year % 400
  let monthFromMarch : Int := ((date.month : Int) + 9) % 12
  let dayOfYear := (153 * monthFromMarch + 2) / 5 + date.day - 1
  let dayOfEra := yearOfEra * 365 + yearOfEra / 4 - yearOfEra / 100 + dayOfYear
  era * daysPerEra + dayOfEra - 719468

def Date.ofDays (days : Int) : Date :=
  let shifted := days + 719468
  let era := shifted / daysPerEra
  let dayOfEra := shifted % daysPerEra
  let yearOfEra := (dayOfEra - dayOfEra / 1460 + dayOfEra / 36524 - dayOfEra / 146096) / 365
  let dayOfYear := dayOfEra - (365 * yearOfEra + yearOfEra / 4 - yearOfEra / 100)
  let monthFromMarch := (5 * dayOfYear + 2) / 153
  let day := dayOfYear - (153 * monthFromMarch + 2) / 5 + 1
  let month := if monthFromMarch < 10 then monthFromMarch + 3 else monthFromMarch - 9
  let year := yearOfEra + era * 400 + (if month ≤ 2 then 1 else 0)
  ⟨year, month.toNat, day.toNat⟩

end Deliberation.Calendar
