import EnergyFormula.Time.Instant
import EnergyFormula.Text.Digits

/-!
# Writing instants

`Instant.text` writes an instant with the offset `+00:00`, `Instant.documentText` with `Z`.  The
fraction has no, three, six or nine digits, the fewest that hold it; a leap second is written as
the second 60.
-/

namespace EnergyFormula

open Text Time

namespace Time

/-- A year: four digits, and a sign before it outside 0 to 9999. -/
def yearText (year : Int) : List Char :=
  if 0 ≤ year && year ≤ 9999 then padded 4 year.natAbs
  else (if year < 0 then '-' else '+') :: padded 4 year.natAbs

/-- The fraction of a second, in groups of three digits. -/
def fractionText (nano : Nat) : List Char :=
  if nano = 0 then []
  else if nano % 1000000 = 0 then '.' :: padded 3 (nano / 1000000)
  else if nano % 1000 = 0 then '.' :: padded 6 (nano / 1000)
  else '.' :: padded 9 nano

/-- A date as `2024-06-01`. -/
def dateText (d : Date) : List Char :=
  yearText d.year ++ '-' :: padded 2 d.month ++ '-' :: padded 2 d.day

/-- A time of day as `00:00:00.500`; a leap second counts on from its second. -/
def timeText (secondOfDay nano : Nat) : List Char :=
  let leap := if nanosPerSecond ≤ nano then 1 else 0
  padded 2 (secondOfDay / 3600) ++ ':' :: padded 2 (secondOfDay / 60 % 60) ++
    ':' :: padded 2 (secondOfDay % 60 + leap) ++ fractionText (nano % nanosPerSecond)

end Time

namespace Instant

/-- Date and time, without an offset. -/
def localText (t : Instant) : List Char :=
  dateText (Date.ofDayNumber t.dayNumber) ++ 'T' :: timeText t.secondOfDay t.nano

/-- The instant as it is written in messages. -/
def text (t : Instant) : String :=
  String.ofList (t.localText ++ ['+', '0', '0', ':', '0', '0'])

/-- The instant as it is written in documents. -/
def documentText (t : Instant) : String :=
  String.ofList (t.localText ++ ['Z'])

end Instant

end EnergyFormula
