import EnergyFormula.Time.Period
import EnergyFormula.Text.DecimalDigit

/-!
# Resolutions

A `Resolution` is the fixed length of the intervals of a series, a positive number of seconds.  It
is written as a duration of weeks, or of days, hours, minutes and seconds; units of the calendar,
whose length varies, are refused.  `Resolution.parse` reads durations, `Resolution.text` writes
them.
-/

namespace EnergyFormula

open Text

/-- Greatest number that a component of a duration may denote, and greatest number of seconds that
a sum of components may. -/
def Resolution.maxComponent : Nat :=
  Nat.pow 2 63 - 1

/-- Longest resolution in seconds: its milliseconds fit a signed number of 64 bits. -/
def Resolution.maxSeconds : Nat :=
  (Nat.pow 2 63 - 1) / 1000

/-- The length of an interval. -/
structure Resolution where
  seconds : Nat
  positive : 0 < seconds
  bounded : seconds ≤ Resolution.maxSeconds
  deriving DecidableEq

/-- What is wrong with a resolution. -/
inductive ResolutionFault where
  | calendarUnit
  | notADuration
  | componentOutOfRange
  | durationOutOfRange
  | notPositive
  deriving DecidableEq

/-- The fault in words. -/
def ResolutionFault.message : ResolutionFault → String
  | calendarUnit => "calendar units have no fixed length"
  | notADuration => "expected PnW or PnDTnHnMnS"
  | componentOutOfRange => "component out of range"
  | durationOutOfRange => "duration out of range"
  | notPositive => "resolution must be positive"

/-- A text or number that is no resolution. -/
structure InvalidResolution where
  value : String
  fault : ResolutionFault
  deriving DecidableEq

/-- The error in words. -/
def InvalidResolution.message (e : InvalidResolution) : String :=
  "Invalid resolution '" ++ e.value ++ "': " ++ e.fault.message

instance : Reportable InvalidResolution where
  code _ := .notEvaluable
  message := InvalidResolution.message

namespace Resolution

/-- Seconds of a week. -/
def weekSeconds : Nat :=
  604800

/-- Seconds of a day. -/
def daySeconds : Nat :=
  86400

/-- The resolution of a number of seconds. -/
def ofTotal (seconds : Nat) : Except ResolutionFault Resolution :=
  if hp : 0 < seconds then
    if hb : seconds ≤ maxSeconds then .ok ⟨seconds, hp, hb⟩ else .error .durationOutOfRange
  else .error .notPositive

/-- The resolution of a whole number of seconds. -/
def ofSeconds (seconds : Int) : Except InvalidResolution Resolution :=
  match ofTotal seconds.toNat with
  | .ok r => .ok r
  | .error fault => .error ⟨toString seconds ++ "s", fault⟩

/-- The resolution of a whole number of minutes. -/
def ofMinutes (minutes : Int) : Except InvalidResolution Resolution :=
  let seconds := minutes * 60
  if -(Nat.pow 2 63 : Int) ≤ seconds ∧ seconds < (Nat.pow 2 63 : Int) then ofSeconds seconds
  else .error ⟨toString minutes ++ "m", .durationOutOfRange⟩

/-- A step in nanoseconds. -/
def nanos (r : Resolution) : Nat :=
  r.seconds * Time.nanosPerSecond

/-- Seconds of a number of consecutive intervals. -/
def span (r : Resolution) (steps : Nat) : Nat :=
  r.seconds * steps

/-- An interval of the coarser resolution is a whole number of these steps. -/
def divides (r coarser : Resolution) : Bool :=
  coarser.seconds % r.seconds = 0

/-- A whole number of steps passes from `origin` to the instant. -/
def isAligned (r : Resolution) (origin t : Instant) : Bool :=
  t.since origin % r.nanos = 0

/-- The number of steps from one instant to another, if a whole number of them leads forward from
the first to the second. -/
def stepsBetween? (r : Resolution) (origin t : Instant) : Option Nat :=
  let elapsed := t.since origin
  if elapsed % r.nanos = 0 ∧ 0 ≤ elapsed then some (elapsed / r.nanos).toNat else none

/-- The number of steps of a period that is a whole number of them. -/
def stepsIn? (r : Resolution) (p : Period) : Option Nat :=
  r.stepsBetween? p.start p.stop

/-- The number and the unit of a component; none for a count of zero. -/
def component (n : Nat) (unit : Char) : List Char :=
  if n = 0 then [] else natural n ++ [unit]

/-- The duration: in weeks if it is a whole number of them, otherwise in days, hours, minutes and
seconds, the zeros left out. -/
def chars (r : Resolution) : List Char :=
  if r.seconds % weekSeconds = 0 then 'P' :: component (r.seconds / weekSeconds) 'W'
  else
    let rest := r.seconds % daySeconds
    let time := component (rest / 3600) 'H' ++ component (rest / 60 % 60) 'M' ++
      component (rest % 60) 'S'
    'P' :: component (r.seconds / daySeconds) 'D' ++
      if rest = 0 then [] else 'T' :: time

/-- `chars` as a string. -/
def text (r : Resolution) : String :=
  String.ofList r.chars

/-- The digits in front of a unit, and what follows the unit.  Without digits or the unit the text
stays whole. -/
def splitComponent (unit : Char) (s : List Char) : List Char × List Char :=
  match s.takeWhile isDecimalDigit, s.dropWhile isDecimalDigit with
  | [], _ => ([], s)
  | digits, c :: rest => if c = unit then (digits, rest) else ([], s)
  | _, [] => ([], s)

/-- The digits in front of the units of a duration; no digits where the unit is absent. -/
structure Components where
  weeks : List Char
  days : List Char
  hours : List Char
  minutes : List Char
  seconds : List Char

/-- The components of a text of the form `PnW` or `PnDTnHnMnS`, each of them optional in the
second form. -/
def components? : List Char → Option Components
  | 'P' :: s =>
    match splitComponent 'W' s with
    | (w :: weeks, []) => some ⟨w :: weeks, [], [], [], []⟩
    | _ =>
      match splitComponent 'D' s with
      | (days, []) => some ⟨[], days, [], [], []⟩
      | (days, 'T' :: s) =>
        let (hours, s) := splitComponent 'H' s
        let (minutes, s) := splitComponent 'M' s
        let (seconds, s) := splitComponent 'S' s
        if s = [] then some ⟨[], days, hours, minutes, seconds⟩ else none
      | _ => none
  | _ => none

/-- The seconds of a component: its digits are ASCII digits, and neither its number nor its length
exceeds the range. -/
def componentSeconds (unit : Nat) (digits : List Char) : Except ResolutionFault Nat :=
  if digits.all isDigit && digitsValue digits * unit ≤ maxComponent then
    .ok (digitsValue digits * unit)
  else .error .componentOutOfRange

/-- The seconds of a duration. -/
def Components.total (c : Components) : Except ResolutionFault Nat := do
  let weeks ← componentSeconds weekSeconds c.weeks
  let days ← componentSeconds daySeconds c.days
  let hours ← componentSeconds 3600 c.hours
  let minutes ← componentSeconds 60 c.minutes
  let seconds ← componentSeconds 1 c.seconds
  return weeks + days + hours + minutes + seconds

/-- The part of a duration before the time of day speaks of years or months. -/
def namesCalendarUnit (s : List Char) : Bool :=
  let date := (s.map Char.toUpper).takeWhile (· ≠ 'T')
  date.contains 'Y' || date.contains 'M'

/-- The resolution that the characters of a text denote. -/
def parseChars (s : List Char) : Except ResolutionFault Resolution :=
  match components? s with
  | some c => c.total.bind ofTotal
  | none => .error (if namesCalendarUnit s then .calendarUnit else .notADuration)

/-- The resolution that a text denotes. -/
def parse (text : String) : Except InvalidResolution Resolution :=
  match parseChars text.toList with
  | .ok r => .ok r
  | .error fault => .error ⟨text, fault⟩

/-- Nothing but a positive number of seconds within the range is a resolution. -/
theorem ofTotal_eq_ok_iff {n : Nat} {r : Resolution} :
    ofTotal n = .ok r ↔ r.seconds = n := by
  obtain ⟨s, hp, hb⟩ := r
  simp only [ofTotal]
  constructor
  · intro h
    split at h
    · split at h
      · cases h; rfl
      · cases h
    · cases h
  · rintro rfl
    simp [hp, hb]

end Resolution

end EnergyFormula
