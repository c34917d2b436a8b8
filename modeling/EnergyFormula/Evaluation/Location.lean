import EnergyFormula.Evaluation.Output

/-!
# Evaluating locations

A time slice is evaluated over the part of a period in which it is valid (`TimeSlice.evaluate`).  A
location is evaluated over a whole period (`FormulaLocation.evaluate`): the slices that overlap the
period must cover it without gaps and may change only where an output interval begins, and their
samples one after another are the samples of the location.
-/

namespace EnergyFormula

/-- The part of a period in which a slice is valid. -/
def TimeSlice.window (s : TimeSlice) (period : Period) : Except EvalError Period :=
  match s.validity.intersect? period with
  | some window => .ok window
  | none => .error (.of (.sliceOutside s.id s.validity period))

/-- The samples of a slice on a grid.  A slice without data is not evaluated: it is missing
everywhere. -/
def TimeSlice.samples (s : TimeSlice) (settings : Settings) (inputs : Inputs) (grid : Grid) :
    Except EvalError (Array Sample) :=
  match s.quality with
  | .noData => .ok (Array.replicate grid.length .missing)
  | .valid =>
    match s.formula.samples settings.maxFormulaDepth inputs grid with
    | .ok samples => .ok samples
    | .error e => .error (e.inSlice s.id)

/-- The series of a slice over the part of a period in which it is valid. -/
def TimeSlice.evaluate (s : TimeSlice) (location : LocationId) (settings : Settings)
    (inputs : Inputs) (period : Period) (output : OutputSpec) : Except EvalError TimeSeries := do
  let window ← s.window period
  let grid ← Grid.build window output.resolution
  let samples ← s.samples settings inputs grid
  return outputSeries settings output (some location) grid samples

/-- A slice and the part of a period in which it is in force. -/
structure SliceWindow where
  slice : TimeSlice
  window : Period

/-- Goes through slices that are to cover a period from `cursor` on; a slice may change only where
an interval of the grid begins. -/
def coverWindows (location : LocationId) (grid : Grid) :
    Instant → List TimeSlice → Except EvalError (List SliceWindow)
  | cursor, [] =>
    if cursor = grid.period.stop then .ok []
    else .error (.of (.uncovered location cursor grid.period.stop))
  | cursor, s :: rest => do
    let window ← s.window grid.period
    if window.start ≠ cursor then
      throw (.of (.uncovered location cursor window.start))
    if !grid.isBoundary window.start || !grid.isBoundary window.stop then
      throw (.of (.sliceBoundary s.id window grid.resolution))
    let others ← coverWindows location grid window.stop rest
    return ⟨s, window⟩ :: others

/-- The samples of slices one after another; the first failure counts. -/
def windowSamples (settings : Settings) (inputs : Inputs) (resolution : Resolution) :
    List SliceWindow → Except EvalError (Array Sample)
  | [] => .ok #[]
  | w :: rest => do
    let grid ← Grid.build w.window resolution
    let samples ← w.slice.samples settings inputs grid
    let others ← windowSamples settings inputs resolution rest
    return samples ++ others

/-- The outcome of evaluating one slice. -/
structure SliceOutcome where
  sliceId : Int
  result : Except EvalError TimeSeries

namespace FormulaLocation

/-- Every slice that overlaps a period, evaluated on its own. -/
def evaluateSlices (l : FormulaLocation) (settings : Settings) (inputs : Inputs)
    (period : Period) (output : OutputSpec) : List SliceOutcome :=
  (l.slicesOverlapping period).map fun s =>
    ⟨s.id, s.evaluate l.location settings inputs period output⟩

/-- The series of a location over a period. -/
def evaluate (l : FormulaLocation) (settings : Settings) (inputs : Inputs) (period : Period)
    (output : OutputSpec) : Except EvalError TimeSeries := do
  let grid ← Grid.build period output.resolution
  let windows ← coverWindows l.location grid period.start (l.slicesOverlapping period)
  let samples ← windowSamples settings inputs output.resolution windows
  return outputSeries settings output (some l.location) grid samples

end FormulaLocation

end EnergyFormula
