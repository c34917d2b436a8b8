import EnergyFormula.Report

/-!
# Submission reports

What the submission of a location comes to: accepted or rejected as a whole, with the problems of
the location and of each of its slices.
-/

namespace EnergyFormula

/-- A location is accepted or rejected as a whole. -/
inductive SubmissionStatus where
  | accepted
  | rejected
  deriving DecidableEq

/-- The status as it is written. -/
def SubmissionStatus.text : SubmissionStatus → String
  | accepted => "accepted"
  | rejected => "rejected"

/-- The problems of one slice. -/
structure SliceReport where
  sliceId : Option Int
  valid : Bool
  errors : List ErrorInfo
  deriving DecidableEq

/-- The report of a slice with the given problems; it is valid if there are none. -/
def SliceReport.of (sliceId : Option Int) (errors : List ErrorInfo) : SliceReport :=
  ⟨sliceId, errors.isEmpty, errors⟩

/-- The report of a submission. -/
structure SubmissionReport where
  status : SubmissionStatus
  locationId : Option String
  /-- Problems of the location rather than of one slice. -/
  locationErrors : List ErrorInfo
  slices : List SliceReport
  deriving DecidableEq

namespace SubmissionReport

/-- The location was accepted. -/
def isAccepted (r : SubmissionReport) : Bool :=
  r.status = .accepted

/-- Every problem, those of the location first. -/
def errors (r : SubmissionReport) : List ErrorInfo :=
  r.locationErrors ++ r.slices.flatMap SliceReport.errors

end SubmissionReport

end EnergyFormula
