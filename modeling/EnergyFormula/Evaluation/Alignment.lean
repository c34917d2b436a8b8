import EnergyFormula.Evaluation.Grid

/-!
# Series on a grid

`align` brings a series onto a grid.  The series must tile its period at the resolution of the grid
or at a finer one that divides it, in phase with the grid, and cover the grid; the finer intervals
of a bucket are summed up from left to right, and the bucket is as good as its worst interval.
-/

namespace EnergyFormula

/-- The sum of values from left to right.  An empty sum is the negative zero, which no summand
changes. -/
def sumFromLeft (values : List Float) : Float :=
  values.foldl (· + ·) (-0.0)

/-- The worst of several qualities; without any, data is missing. -/
def worstQuality : List IntervalQuality → IntervalQuality
  | [] => .missing
  | q :: rest => rest.foldl IntervalQuality.worst q

/-- The sample of a bucket of intervals. -/
def bucketSample (bucket : List Interval) : Sample :=
  ⟨sumFromLeft (bucket.map Interval.quantity), worstQuality (bucket.map Interval.quality)⟩

/-- The sample of a series in an interval of a grid with `ratio` intervals of the series to
each. -/
def bucketAt (series : TimeSeries) (grid : Grid) (ratio index : Nat) :
    Except EvalError Sample :=
  let start := grid.startOf index
  match series.indexAt? start with
  | none => .error (.atPosition (.missingInterval series.id start) (Grid.position index))
  | some first =>
    if first + ratio ≤ series.intervals.size then
      .ok (bucketSample (series.intervals.extract first (first + ratio)).toList)
    else .error (.atPosition (.cutInterval series.id start) (Grid.position index))

/-- The series can be brought onto the grid. -/
def checkAlignment (series : TimeSeries) (grid : Grid) : Except EvalCause Unit := do
  match series.checkEvaluable with
  | .ok () => pure ()
  | .error e => throw (.notEvaluable e)
  let input := series.resolution
  let output := grid.resolution
  if output.seconds < input.seconds then throw (.coarserInput series.id input output)
  if !input.divides output then throw (.indivisibleInput series.id input output)
  if !input.isAligned series.period.start grid.period.start then throw (.outOfPhase series.id)
  if !series.period.covers grid.period then
    throw (.shortInput series.id series.period grid.period)

/-- The samples of a series on a grid, one for each interval. -/
def align (series : TimeSeries) (grid : Grid) : Except EvalError (Array Sample) :=
  match checkAlignment series grid with
  | .error cause => .error (.of cause)
  | .ok () => do
    let ratio := grid.resolution.seconds / series.resolution.seconds
    let samples ← (List.range grid.length).mapM (bucketAt series grid ratio)
    return samples.toArray

end EnergyFormula
