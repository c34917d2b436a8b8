import EnergyFormula.Calculation.Basic
import EnergyFormula.Document.Report
import EnergyFormula.Document.Series

/-!
# Calculation documents

The interchange form of calculation requests and results.
-/

namespace EnergyFormula

open Document

/-- The input series that a value holds, by name. -/
def Inputs.read (v : Json) : Decoded Inputs :=
  dictionary TimeSeries.read v

/-- The input series as they are written. -/
def Inputs.write (inputs : Inputs) : Json :=
  .object (inputs.map fun (name, series) => (name, series.write))

/-- The request that a value holds. -/
def CalculationRequest.read (v : Json) : Decoded CalculationRequest :=
  let fields : Record v CalculationRequest :=
    CalculationRequest.mk <$> .required ["calculationId"] string
      <*> .required ["formulaLocation"] LocationDocument.read
      <*> .optional ["timeSliceId"] integer
      <*> .defaulted ["inputs"] [] Inputs.read
      <*> .required ["period"] Period.read
      <*> .required ["output"] OutputSpec.read
  fields.read

/-- The request as it is written. -/
def CalculationRequest.write (r : CalculationRequest) : Json :=
  object [("calculationId", some (.string r.id)), ("formulaLocation", some r.location.write),
    ("timeSliceId", r.sliceId.map .integer), ("inputs", some (Inputs.write r.inputs)),
    ("period", some r.period.write), ("output", some r.output.write)]

/-- The status with a name. -/
def CalculationStatus.ofText? : String → Option CalculationStatus
  | "COMPLETED" => some .completed
  | "FAILED" => some .failed
  | _ => none

/-- A written status is read back. -/
theorem CalculationStatus.ofText?_text (s : CalculationStatus) :
    CalculationStatus.ofText? s.text = some s := by
  cases s <;> rfl

/-- The result that a value holds. -/
def CalculationResult.read (v : Json) : Decoded CalculationResult :=
  let fields : Record v CalculationResult :=
    CalculationResult.mk <$> .required ["calculationId"] string
      <*> .required ["status"] (named CalculationStatus.ofText?)
      <*> .optional ["output"] TimeSeries.read
      <*> .defaulted ["errors"] [] (list ErrorInfo.read)
      <*> .required ["completedAt"] instant
  fields.read

/-- The result as it is written. -/
def CalculationResult.write (r : CalculationResult) : Json :=
  object [("calculationId", some (.string r.id)), ("status", some (.string r.status.text)),
    ("output", r.output.map TimeSeries.write), ("errors", some (array ErrorInfo.write r.errors)),
    ("completedAt", some (ofInstant r.completedAt))]

end EnergyFormula
