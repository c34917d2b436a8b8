import EnergyFormula.Evaluation.Location
import EnergyFormula.Validation.Location

/-!
# Calculations

A calculation validates a location document and evaluates the location, or one of its slices, over a
period.  In a batch every calculation is run on its own; the results are put in the order of their
ids (`batch`), and `mem_batch` says that they are the results of the single calculations.
-/

namespace EnergyFormula

/-- A location, or one of its slices, to be calculated over a period. -/
structure CalculationRequest where
  id : String
  location : LocationDocument
  /-- The slice that the calculation is restricted to. -/
  sliceId : Option Int
  inputs : Inputs
  period : Period
  output : OutputSpec

/-- How a calculation ended. -/
inductive CalculationStatus where
  | completed
  | failed
  deriving DecidableEq

/-- The status as it is written. -/
def CalculationStatus.text : CalculationStatus → String
  | completed => "COMPLETED"
  | failed => "FAILED"

/-- The result of a calculation. -/
structure CalculationResult where
  id : String
  status : CalculationStatus
  output : Option TimeSeries
  errors : List ErrorInfo
  completedAt : Instant

namespace CalculationResult

/-- The calculation produced a series. -/
def isCompleted (r : CalculationResult) : Bool :=
  r.status = .completed

/-- The result of a calculation that produced a series, or of one that came to nothing. -/
def ofOutcome (id : String) (now : Instant) : Except (List ErrorInfo) TimeSeries → CalculationResult
  | .ok series => ⟨id, .completed, some series, [], now⟩
  | .error errors => ⟨id, .failed, none, errors, now⟩

end CalculationResult

/-- The series of one slice of a location. -/
def FormulaLocation.evaluateSlice (l : FormulaLocation) (sliceId : Int) (settings : Settings)
    (inputs : Inputs) (period : Period) (output : OutputSpec) : Except EvalError TimeSeries :=
  match l.slice? sliceId with
  | some slice => slice.evaluate l.location settings inputs period output
  | none => .error (.of (.noSuchSlice sliceId l.location))

namespace CalculationRequest

/-- The series of an accepted location. -/
def evaluate (r : CalculationRequest) (settings : Settings) (l : FormulaLocation) :
    Except EvalError TimeSeries :=
  match r.sliceId with
  | some id => l.evaluateSlice id settings r.inputs r.period r.output
  | none => l.evaluate settings r.inputs r.period r.output

/-- What the calculation comes to: a series, or the problems of the location or of its
evaluation. -/
def outcome (r : CalculationRequest) (settings : Settings) : Except (List ErrorInfo) TimeSeries :=
  let validated := r.location.validate settings.maxFormulaDepth
  match validated.location with
  | none => .error validated.report.errors
  | some l => (r.evaluate settings l).mapError fun e => [e.info]

/-- The result of the calculation; `now` is the time at which it is completed. -/
def run (r : CalculationRequest) (settings : Settings) (now : Instant) : CalculationResult :=
  .ofOutcome r.id now (r.outcome settings)

end CalculationRequest

/-- The results of several calculations in the order of their ids; equal ids keep their order.
`clock` gives the time at which each of the calculations is completed: they are run side by side. -/
def batchAt (settings : Settings) (clock : Nat → Instant) (requests : List CalculationRequest) :
    List CalculationResult :=
  (requests.mapIdx fun i r => r.run settings (clock i)).mergeSort fun a b => a.id ≤ b.id

/-- The results of several calculations that are completed at one time. -/
def batch (settings : Settings) (now : Instant) (requests : List CalculationRequest) :
    List CalculationResult :=
  batchAt settings (fun _ => now) requests

theorem batch_eq (settings : Settings) (now : Instant) (requests : List CalculationRequest) :
    batch settings now requests =
      (requests.map fun r => r.run settings now).mergeSort fun a b => a.id ≤ b.id := by
  have hmap : (requests.mapIdx fun _ r => r.run settings now) =
      requests.map fun r => r.run settings now :=
    List.ext_getElem (by simp) (by simp)
  rw [batch, batchAt, hmap]

/-- A batch has the results of its calculations, each run on its own. -/
theorem mem_batch {settings : Settings} {now : Instant} {requests : List CalculationRequest}
    {result : CalculationResult} :
    result ∈ batch settings now requests ↔ ∃ r ∈ requests, r.run settings now = result := by
  rw [batch_eq, List.mem_mergeSort, List.mem_map]

end EnergyFormula
