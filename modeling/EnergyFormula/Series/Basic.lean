import EnergyFormula.Time.Resolution

/-!
# Interval series

A `TimeSeries` holds quantities, one for each interval of a period.  It can be calculated with only
if its intervals tile the period: `TimeSeries.checkEvaluable` goes through them and reports the
first defect.  `TimeSeries.indexAt?` finds the interval that starts at an instant.
-/

namespace EnergyFormula

/-- How good a quantity is. -/
inductive IntervalQuality where
  | validated
  | estimated
  | missing
  deriving DecidableEq

namespace IntervalQuality

/-- Position from best to worst. -/
def rank : IntervalQuality → Nat
  | validated => 0
  | estimated => 1
  | missing => 2

/-- The worse of two qualities. -/
def worst (a b : IntervalQuality) : IntervalQuality :=
  if a.rank ≤ b.rank then b else a

/-- The quality as it is written. -/
def text : IntervalQuality → String
  | validated => "VALIDATED"
  | estimated => "ESTIMATED"
  | missing => "MISSING"

theorem rank_worst (a b : IntervalQuality) : (worst a b).rank = max a.rank b.rank := by
  cases a <;> cases b <;> rfl

theorem worst_comm (a b : IntervalQuality) : worst a b = worst b a := by
  cases a <;> cases b <;> rfl

theorem worst_assoc (a b c : IntervalQuality) : worst (worst a b) c = worst a (worst b c) := by
  cases a <;> cases b <;> cases c <;> rfl

theorem validated_worst (a : IntervalQuality) : worst validated a = a := by
  cases a <;> rfl

end IntervalQuality

/-- One interval of a series. -/
structure Interval where
  position : Int
  start : Instant
  stop : Instant
  quantity : Float
  quality : IntervalQuality

/-- A series of intervals over a period. -/
structure TimeSeries where
  id : String
  marketLocationId : Option String
  networkLocationId : Option String
  meterLocationId : Option String
  measurementType : Option String
  unit : String
  resolution : Resolution
  period : Period
  intervals : Array Interval

/-- Unit and resolution of a series to be produced, and optionally its id. -/
structure OutputSpec where
  timeSeriesId : Option String
  unit : String
  resolution : Resolution

/-- Why a series cannot be calculated with. -/
inductive SeriesDefect where
  | emptyPeriod (period : Period)
  | positionOrder (position previous : Int)
  | wrongStart (position : Int) (start expected : Instant)
  | wrongLength (position : Int) (resolution : Resolution)
  | nonFinite (position : Int)
  | wrongEnd (stop periodEnd : Instant)

/-- The defect in words. -/
def SeriesDefect.message : SeriesDefect → String
  | emptyPeriod period => "empty period " ++ period.text
  | positionOrder position previous =>
    "position " ++ toString position ++ " does not follow " ++ toString previous
  | wrongStart position start expected =>
    "interval " ++ toString position ++ " starts at " ++ start.text ++ ", expected " ++
      expected.text
  | wrongLength position resolution =>
    "interval " ++ toString position ++ " does not span " ++ resolution.text
  | nonFinite position => "interval " ++ toString position ++ " has a non-finite quantity"
  | wrongEnd stop periodEnd =>
    "intervals end at " ++ stop.text ++ ", period ends at " ++ periodEnd.text

/-- A series that cannot be calculated with. -/
structure NotEvaluable where
  id : String
  defect : SeriesDefect

instance : Reportable NotEvaluable where
  code _ := .notEvaluable
  message e := "Time series '" ++ e.id ++ "' is not evaluable: " ++ e.defect.message

/-- The interval at an index of a row of intervals of one length, positions counting from 1. -/
def Interval.atIndex (start : Instant) (resolution : Resolution) (index : Nat) (quantity : Float)
    (quality : IntervalQuality) : Interval :=
  let opening := start.after (resolution.span index)
  { position := index + 1
    start := opening
    stop := opening.after resolution.seconds
    quantity := quantity
    quality := quality }

namespace TimeSeries

/-- The series of validated quantities from an instant on. -/
def ofValues (id unit : String) (resolution : Resolution) (start : Instant)
    (values : List Float) : TimeSeries :=
  { id := id
    marketLocationId := none
    networkLocationId := none
    meterLocationId := none
    measurementType := none
    unit := unit
    resolution := resolution
    period := ⟨start, start.after (resolution.span values.length)⟩
    intervals :=
      (values.mapIdx fun i x => Interval.atIndex start resolution i x .validated).toArray }

/-- The location that the series belongs to: the market location before the network location. -/
def owner? (s : TimeSeries) : Option String :=
  s.marketLocationId <|> s.networkLocationId

/-- The quantities of the intervals. -/
def quantities (s : TimeSeries) : List Float :=
  s.intervals.toList.map Interval.quantity

/-- Goes through intervals that are to begin at `cursor`, with positions above `previous`, and
gives the instant at which the last one ends. -/
def checkIntervals (resolution : Resolution) :
    Option Int → Instant → List Interval → Except SeriesDefect Instant
  | _, cursor, [] => .ok cursor
  | previous, cursor, interval :: rest =>
    match previous.filter (interval.position ≤ ·) with
    | some p => .error (.positionOrder interval.position p)
    | none =>
      if interval.start ≠ cursor then
        .error (.wrongStart interval.position interval.start cursor)
      else if interval.stop.since interval.start ≠ resolution.nanos then
        .error (.wrongLength interval.position resolution)
      else if !interval.quantity.isFinite then .error (.nonFinite interval.position)
      else checkIntervals resolution (some interval.position) interval.stop rest

/-- The intervals tile the period: positions increase, each interval begins where the one before
ends and lasts one step, the last one ends with the period, and every quantity is finite. -/
def checkTiling (s : TimeSeries) : Except SeriesDefect Unit := do
  if ¬ s.period.start < s.period.stop then throw (.emptyPeriod s.period)
  let stop ← checkIntervals s.resolution none s.period.start s.intervals.toList
  if stop ≠ s.period.stop then throw (.wrongEnd stop s.period.stop)

/-- A series with a defect cannot be calculated with. -/
def checkEvaluable (s : TimeSeries) : Except NotEvaluable Unit :=
  match s.checkTiling with
  | .ok () => .ok ()
  | .error defect => .error ⟨s.id, defect⟩

/-- The index of the interval that starts at an instant. -/
def indexAt? (s : TimeSeries) (t : Instant) : Option Nat :=
  if s.period.contains t then
    (s.resolution.stepsBetween? s.period.start t).filter (· < s.intervals.size)
  else none

/-- An index is found in the period only, from the steps that lead to the instant. -/
theorem indexAt?_eq_some_iff {s : TimeSeries} {t : Instant} {k : Nat} :
    s.indexAt? t = some k ↔ s.period.contains t = true ∧
      s.resolution.stepsBetween? s.period.start t = some k ∧ k < s.intervals.size := by
  rw [indexAt?, Option.ite_none_right_eq_some, Option.filter_eq_some_iff, decide_eq_true_eq]

end TimeSeries

end EnergyFormula
