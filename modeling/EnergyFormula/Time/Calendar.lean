/-!
# The calendar

Dates of the Gregorian calendar, extended to all years, and their number in days from 1 January
1970.  Days are counted in years that begin in March, so that a leap day is the last day of its
year, and in eras of 400 years, after which the calendar repeats itself.
-/

namespace EnergyFormula.Time

/-- A date of the calendar. -/
structure Date where
  year : Int
  month : Nat
  day : Nat
  deriving DecidableEq

/-- A year with a 29 February. -/
def isLeapYear (year : Int) : Bool :=
  year % 4 = 0 && (year % 100 ≠ 0 || year % 400 = 0)

/-- The number of days of a month. -/
def daysInMonth (year : Int) (month : Nat) : Nat :=
  match month with
  | 2 => if isLeapYear year then 29 else 28
  | 4 | 6 | 9 | 11 => 30
  | _ => 31

/-- The first and the last year of the calendar. -/
def isYear (year : Int) : Bool :=
  -262143 ≤ year && year ≤ 262142

/-- The month and the day exist. -/
def Date.isValid (d : Date) : Bool :=
  isYear d.year && 1 ≤ d.month && d.month ≤ 12 && 1 ≤ d.day &&
    d.day ≤ daysInMonth d.year d.month

/-- Days of 400 years. -/
def daysPerEra : Nat :=
  146097

/-- Days from 1 March of year 0 to 1 January 1970. -/
def epochOffset : Nat :=
  719468

/-- The days before a month, in a year that begins in March. -/
def daysBeforeMonth (month : Nat) : Nat :=
  (153 * (if 2 < month then month - 3 else month + 9) + 2) / 5

/-- The days before a year of an era. -/
def daysBeforeYear (yearOfEra : Nat) : Nat :=
  yearOfEra * 365 + yearOfEra / 4 - yearOfEra / 100

/-- The number of a date in days from 1 January 1970. -/
def Date.dayNumber (d : Date) : Int :=
  let year := if d.month ≤ 2 then d.year - 1 else d.year
  let era := year / 400
  let yearOfEra := (year % 400).toNat
  era * daysPerEra + daysBeforeYear yearOfEra + daysBeforeMonth d.month + d.day - 1 - epochOffset

/-- The date with a number in days from 1 January 1970. -/
def Date.ofDayNumber (n : Int) : Date :=
  let day := n + epochOffset
  let era := day / daysPerEra
  let dayOfEra := (day % daysPerEra).toNat
  let yearOfEra :=
    (dayOfEra - dayOfEra / 1460 + dayOfEra / 36524 - dayOfEra / 146096) / 365
  let dayOfYear := dayOfEra - daysBeforeYear yearOfEra
  let shifted := (5 * dayOfYear + 2) / 153
  let month := if shifted < 10 then shifted + 3 else shifted - 9
  let year : Int := yearOfEra + era * 400
  { year := if month ≤ 2 then year + 1 else year
    month := month
    day := dayOfYear - (153 * shifted + 2) / 5 + 1 }

end EnergyFormula.Time
