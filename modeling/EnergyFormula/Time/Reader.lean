import EnergyFormula.Time.Instant
import EnergyFormula.Text.Blank
import EnergyFormula.Text.Digits
import EnergyFormula.Report

/-!
# Reading instants

`Instant.parse` reads the strict form `2024-06-01T00:00:00.5+02:00`, blanks around it aside, and
tells what is wrong with any other text (`TimestampFault`).  `Instant.parseRelaxed?` reads the
forms that documents may use besides: unpadded numbers, blanks between the parts, signed years,
`UTC`, and offsets with any number of colons and blanks between hours and minutes.
-/

namespace EnergyFormula

open Text Time

/-- What is wrong with the text of an instant. -/
inductive TimestampFault where
  | prematureEnd
  | invalidCharacter
  | outOfRange
  | trailingInput
  deriving DecidableEq

/-- The fault in words. -/
def TimestampFault.message : TimestampFault → String
  | prematureEnd => "premature end of input"
  | invalidCharacter => "input contains invalid characters"
  | outOfRange => "input is out of range"
  | trailingInput => "trailing input"

/-- A text that is no instant. -/
structure MalformedTimestamp where
  text : String
  fault : TimestampFault
  deriving DecidableEq

instance : Reportable MalformedTimestamp where
  code _ := .malformedTimestamp
  message e := "Malformed timestamp '" ++ e.text ++ "': " ++ e.fault.message

namespace Time

/-- The bytes of a text. -/
def byteCount (s : List Char) : Nat :=
  s.foldl (fun bytes c => bytes + c.utf8Size) 0

/-- Bytes of the shortest date with time. -/
def minTimestampBytes : Nat :=
  19

/-- A number of exactly `count` digits, and what follows it. -/
def fixedDigits (count : Nat) (s : List Char) : Except TimestampFault (Nat × List Char) :=
  let digits := s.take count
  if !digits.all isDigit then .error .invalidCharacter
  else if digits.length < count then .error .prematureEnd
  else .ok (digitsValue digits, s.drop count)

/-- What follows a character that satisfies `p`. -/
def expect (p : Char → Bool) : List Char → Except TimestampFault (List Char)
  | c :: r => if p c then .ok r else .error .invalidCharacter
  | [] => .error .prematureEnd

/-- Digits after the point as nanoseconds; those beyond the ninth do not count. -/
def fractionNanos (digits : List Char) : Nat :=
  digitsValue (digits.take 9) * Nat.pow 10 (9 - digits.length)

/-- The fraction of a second, if there is one: a point and at least one digit. -/
def fraction : List Char → Except TimestampFault (Nat × List Char)
  | '.' :: r =>
    match spanDigits r with
    | ([], []) => .error .prematureEnd
    | ([], _) => .error .invalidCharacter
    | (digits, rest) => .ok (fractionNanos digits, rest)
  | r => .ok (0, r)

/-- The sign of an offset: true for the minus signs. -/
def offsetSign : List Char → Except TimestampFault (Bool × List Char)
  | c :: r =>
    if c = '+' then .ok (false, r)
    else if c = '-' || c = '\u2212' then .ok (true, r)
    else .error .invalidCharacter
  | [] => .error .prematureEnd

/-- Two digits of an offset. -/
def offsetDigits (s : List Char) : Except TimestampFault (Nat × List Char) :=
  if byteCount s < 2 then .error .prematureEnd
  else if (s.take 2).length = 2 && (s.take 2).all isDigit then
    .ok (digitsValue (s.take 2), s.drop 2)
  else .error .invalidCharacter

/-- An offset from universal time in minutes, and what follows it.  Between hours and minutes
stands what `separator` takes off. -/
def offset (separator : List Char → Except TimestampFault (List Char)) (s : List Char) :
    Except TimestampFault (Int × List Char) :=
  match s with
  | 'Z' :: r => .ok (0, r)
  | 'z' :: r => .ok (0, r)
  | s => do
    let (negative, s) ← offsetSign s
    let (hours, s) ← offsetDigits s
    let s ← separator s
    let (minutes, s) ← offsetDigits s
    if 59 < minutes then throw .outOfRange
    let total : Int := hours * 60 + minutes
    return (if negative then -total else total, s)

/-- Minutes of a day. -/
def minutesPerDay : Nat :=
  1440

/-- An offset of a day or more does not exist. -/
def isOffset (minutes : Int) : Bool :=
  minutes.natAbs < minutesPerDay

/-- The hour, the minute and the second exist; the second 60 is a leap second. -/
def isTimeOfDay (hour minute second : Nat) : Bool :=
  hour ≤ 23 && minute ≤ 59 && second ≤ 60

/-- A time of day to the nanosecond. -/
structure TimeOfDay where
  hour : Nat
  minute : Nat
  second : Nat
  nano : Nat
  valid : isTimeOfDay hour minute second = true
  nano_lt : nano < nanosPerSecond

/-- The time of day with the given parts, if there is one. -/
def TimeOfDay.of? (hour minute second nano : Nat) : Option TimeOfDay :=
  if h : isTimeOfDay hour minute second = true ∧ nano < nanosPerSecond then
    some ⟨hour, minute, second, nano, h.1, h.2⟩
  else none

/-- The instant at which a minute, counted from the beginning of 1970, has come to the second and the
nanosecond of a time of day. -/
def TimeOfDay.inMinute (time : TimeOfDay) (minute : Int) : Instant :=
  if time.second = 60 then .withinLeap (minute * 60 + 59) time.nano (by omega) time.nano_lt
  else .within (minute * 60 + time.second) time.nano time.nano_lt

/-- The instant at which a place with the given offset has a date and a time of day. -/
def instantOf (date : Date) (time : TimeOfDay) (offset : Int) : Instant :=
  time.inMinute
    (date.dayNumber * minutesPerDay + (time.hour * 60 + time.minute : Nat) - offset)

/-- A date with time and offset that fills the text. -/
def readTimestamp (s : List Char) : Except TimestampFault Instant := do
  if byteCount s < minTimestampBytes then throw .prematureEnd
  let (year, s) ← fixedDigits 4 s
  let s ← expect (· = '-') s
  let (month, s) ← fixedDigits 2 s
  let s ← expect (· = '-') s
  let (day, s) ← fixedDigits 2 s
  let date : Date := ⟨year, month, day⟩
  if !date.isValid then throw .outOfRange
  let s ← expect (fun c => c = 'T' || c = 't' || c = ' ') s
  let (hour, s) ← fixedDigits 2 s
  let s ← expect (· = ':') s
  let (minute, s) ← fixedDigits 2 s
  let s ← expect (· = ':') s
  let (second, s) ← fixedDigits 2 s
  let (nano, s) ← fraction s
  let some time := TimeOfDay.of? hour minute second nano | throw .outOfRange
  let (offset, s) ← offset (expect (· = ':')) s
  if s ≠ [] then throw .trailingInput
  if !isOffset offset then throw .outOfRange
  return instantOf date time offset

/-- A number of one to `width` digits after blanks, and what follows it. -/
def shortNumber? (width : Nat) (s : List Char) : Option (Nat × List Char) :=
  let s := trimStart s
  let digits := (s.take width).takeWhile isDigit
  if digits = [] then none else some (digitsValue digits, s.drop digits.length)

/-- A year after blanks: up to four digits, or any number of digits behind a sign. -/
def yearNumber? (s : List Char) : Option (Int × List Char) :=
  match trimStart s with
  | '-' :: r => (shortNumberOfAny? r).map fun (n, rest) => (-n, rest)
  | '+' :: r => shortNumberOfAny? r
  | s => (shortNumber? 4 s).map fun (n, rest) => ((n : Int), rest)
where
  /-- A number of any length, right at the start. -/
  shortNumberOfAny? (s : List Char) : Option (Int × List Char) :=
    match spanDigits s with
    | ([], _) => none
    | (digits, rest) => some ((digitsValue digits : Int), rest)

/-- What follows a character after blanks. -/
def after? (c : Char) (s : List Char) : Option (List Char) :=
  match trimStart s with
  | d :: r => if d = c then some r else none
  | [] => none

/-- The offset of a relaxed text: `UTC`, or the usual forms with any colons and blanks. -/
def relaxedOffset? (s : List Char) : Option (Int × List Char) :=
  if (s.take 3).map Char.toUpper = ['U', 'T', 'C'] then some (0, s.drop 3)
  else (offset (fun r => .ok (r.dropWhile fun c => c = ':' || isBlank c)) s).toOption

/-- The date of a relaxed text, and what follows it. -/
def relaxedDate? (s : List Char) : Option (Date × List Char) := do
  let (year, s) ← yearNumber? s
  let s ← after? '-' s
  let (month, s) ← shortNumber? 2 s
  let s ← after? '-' s
  let (day, s) ← shortNumber? 2 s
  let date : Date := ⟨year, month, day⟩
  if date.isValid then some (date, s) else none

/-- The time of day of a relaxed text, and what follows it. -/
def relaxedTime? (s : List Char) : Option (TimeOfDay × List Char) := do
  let (hour, s) ← shortNumber? 2 s
  let s ← after? ':' s
  let (minute, s) ← shortNumber? 2 s
  let s ← after? ':' s
  let (second, s) ← shortNumber? 2 s
  let (nano, s) ← (fraction s).toOption
  let time ← TimeOfDay.of? hour minute second nano
  return (time, s)

/-- The instant lies in a year of the calendar. -/
def isInCalendar (t : Instant) : Bool :=
  isYear (Date.ofDayNumber t.dayNumber).year

/-- A relaxed text that fills the text up to blanks at its end. -/
def readRelaxed? (s : List Char) : Option Instant := do
  let (date, s) ← relaxedDate? s
  let s ← match s with
    | c :: r => if c = 'T' || c = 't' || c = ' ' then some r else none
    | [] => none
  let (time, s) ← relaxedTime? s
  let (offset, s) ← relaxedOffset? (trimStart s)
  let t := instantOf date time offset
  if trimStart s = [] && isOffset offset && isInCalendar t then some t else none

end Time

/-- The instant that a text in the strict form denotes. -/
def Instant.parse (text : String) : Except MalformedTimestamp Instant :=
  match readTimestamp (trim text.toList) with
  | .ok t => .ok t
  | .error fault => .error ⟨text, fault⟩

/-- The instant that a text in a document denotes. -/
def Instant.parseRelaxed? (text : String) : Option Instant :=
  readRelaxed? text.toList

end EnergyFormula
