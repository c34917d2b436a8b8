import EnergyFormula.Document.Record
import EnergyFormula.Series.Basic

/-!
# Series documents

The interchange form of periods, intervals, series and output specifications.  Quantities are
written as text, and read from text or from a number.
-/

namespace EnergyFormula

open Document

/-- The period that a value holds; its end may lie before its start. -/
def Period.read (v : Json) : Decoded Period :=
  let fields : Record v Period :=
    Period.mk <$> .required ["start"] instant <*> .required ["end"] instant
  fields.read

/-- The period as it is written. -/
def Period.write (p : Period) : Json :=
  .object [("start", ofInstant p.start), ("end", ofInstant p.stop)]

/-- The quality with a text; the best and the worst have a further one each. -/
def IntervalQuality.ofText? (s : String) : Option IntervalQuality :=
  if s = "VALIDATED" || s = "validated" || s = "Gültige Daten" then some .validated
  else if s = "ESTIMATED" || s = "estimated" then some .estimated
  else if s = "MISSING" || s = "missing" || s = "Keine Daten" then some .missing
  else none

/-- A written quality is read back. -/
theorem IntervalQuality.ofText?_text (q : IntervalQuality) :
    IntervalQuality.ofText? q.text = some q := by
  cases q <;> decide

/-- The interval that a value holds. -/
def Interval.read (v : Json) : Decoded Interval :=
  let fields : Record v Interval :=
    Interval.mk <$> .required ["position"] integer
      <*> .required ["start"] instant
      <*> .required ["end"] instant
      <*> .required ["quantity"] flexible
      <*> .defaulted ["quality"] .validated (named IntervalQuality.ofText?)
  fields.read

/-- The interval as it is written. -/
def Interval.write (i : Interval) : Json :=
  .object [("position", .integer i.position), ("start", ofInstant i.start),
    ("end", ofInstant i.stop), ("quantity", .string (Number.plain i.quantity)),
    ("quality", .string i.quality.text)]

/-- The series that a value holds. -/
def TimeSeries.read (v : Json) : Decoded TimeSeries :=
  let fields : Record v TimeSeries :=
    TimeSeries.mk <$> .required ["timeSeriesId"] string
      <*> .optional ["marketLocationId"] string
      <*> .optional ["networkLocationId"] string
      <*> .optional ["meterLocationId"] string
      <*> .optional ["measurementType"] string
      <*> .required ["unit"] string
      <*> .required ["resolution"] Document.resolution
      <*> .required ["period"] Period.read
      <*> .defaulted ["intervals"] #[] (fun row => (list Interval.read row).map List.toArray)
  fields.read

/-- The series as it is written. -/
def TimeSeries.write (s : TimeSeries) : Json :=
  object [("timeSeriesId", some (.string s.id)),
    ("marketLocationId", s.marketLocationId.map .string),
    ("networkLocationId", s.networkLocationId.map .string),
    ("meterLocationId", s.meterLocationId.map .string),
    ("measurementType", s.measurementType.map .string),
    ("unit", some (.string s.unit)),
    ("resolution", some (.string s.resolution.text)),
    ("period", some s.period.write),
    ("intervals", some (array Interval.write s.intervals.toList))]

/-- The output specification that a value holds. -/
def OutputSpec.read (v : Json) : Decoded OutputSpec :=
  let fields : Record v OutputSpec :=
    OutputSpec.mk <$> .optional ["timeSeriesId"] string
      <*> .required ["unit", "outputUnit"] string
      <*> .required ["resolution", "outputResolution"] Document.resolution
  fields.read

/-- The output specification as it is written. -/
def OutputSpec.write (o : OutputSpec) : Json :=
  object [("timeSeriesId", o.timeSeriesId.map .string), ("unit", some (.string o.unit)),
    ("resolution", some (.string o.resolution.text))]

end EnergyFormula
