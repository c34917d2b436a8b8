import EnergyFormula.Evaluation.Expression
import EnergyFormula.Evaluation.Formula
import EnergyFormula.Settings

/-!
# Produced series

`Formula.evaluate` and `Expression.evaluate` produce a series over a period.  Its intervals are
those of the grid, and its quantities the samples, rounded to the decimal places of the settings.
-/

namespace EnergyFormula

/-- The measurement type of every produced series. -/
def calculatedType : String :=
  "CALCULATED"

/-- The id of a produced series that is given none. -/
def defaultSeriesId : Option LocationId → String
  | some location => "TS-CALC-" ++ location.text
  | none => "TS-CALC"

/-- The sample with its value rounded. -/
def Sample.rounded (places : Nat) (s : Sample) : Sample :=
  ⟨Number.roundHalfAway s.value places, s.quality⟩

/-- The series of samples over a grid. -/
def outputSeries (settings : Settings) (output : OutputSpec) (location : Option LocationId)
    (grid : Grid) (samples : Array Sample) : TimeSeries :=
  { id := output.timeSeriesId.getD (defaultSeriesId location)
    marketLocationId := location.bind LocationId.marketText?
    networkLocationId := location.bind LocationId.networkText?
    meterLocationId := none
    measurementType := some calculatedType
    unit := output.unit
    resolution := grid.resolution
    period := grid.period
    intervals := grid.intervals (samples.map (Sample.rounded settings.quantityScale)) }

/-- The series of a formula over a period. -/
def Formula.evaluate (f : Formula) (settings : Settings) (inputs : Inputs) (period : Period)
    (output : OutputSpec) : Except EvalError TimeSeries := do
  let grid ← Grid.build period output.resolution
  let samples ← f.samples settings.maxFormulaDepth inputs grid
  return outputSeries settings output none grid samples

/-- The function reduces all intervals to one. -/
def DomainFunction.isReduction : DomainFunction → Bool
  | .intervalMax => true
  | .intervalMin => true
  | _ => false

/-- The grid of a single interval that spans the period. -/
def Grid.single (period : Period) : Except EvalError Grid :=
  match Resolution.ofSeconds period.seconds with
  | .ok resolution => Grid.build period resolution
  | .error e => .error (.of (.invalidResolution e))

/-- The series of an expression over a period.  A reduction at the root produces a single interval
that spans the period. -/
def Expression.evaluate (e : Expression) (settings : Settings) (inputs : Inputs)
    (period : Period) (output : OutputSpec) : Except EvalError TimeSeries :=
  if settings.maxFormulaDepth < e.depth then
    .error (.of (.depthExceeded e.depth settings.maxFormulaDepth))
  else do
    let grid ← Grid.build period output.resolution
    let signal ← e.signal inputs grid
    if e.function.isReduction && signal.isScalar then do
      let point ← Grid.single period
      return outputSeries settings output none point (signal.samples 1)
    else return outputSeries settings output none grid (signal.samples grid.length)

end EnergyFormula
