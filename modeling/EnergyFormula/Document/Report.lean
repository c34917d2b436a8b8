import EnergyFormula.Document.Record
import EnergyFormula.Validation.Submission

/-!
# Report documents

The interchange form of reported problems and of submission reports.
-/

namespace EnergyFormula

open Document

/-- The reported problem that a value holds. -/
def ErrorInfo.read (v : Json) : Decoded ErrorInfo :=
  let fields : Record v ErrorInfo :=
    ErrorInfo.mk <$> .required ["code"] (named ErrorCode.ofText?)
      <*> .required ["message"] string
      <*> .optional ["path"] string
  fields.read

/-- The reported problem as it is written. -/
def ErrorInfo.write (e : ErrorInfo) : Json :=
  object [("code", some (.string e.code.text)), ("message", some (.string e.message)),
    ("path", e.path.map .string)]

/-- The slice report that a value holds. -/
def SliceReport.read (v : Json) : Decoded SliceReport :=
  let fields : Record v SliceReport :=
    SliceReport.mk <$> .optional ["timeSliceId"] integer
      <*> .required ["valid"] boolean
      <*> .defaulted ["errors"] [] (list ErrorInfo.read)
  fields.read

/-- The slice report as it is written. -/
def SliceReport.write (r : SliceReport) : Json :=
  object [("timeSliceId", r.sliceId.map .integer), ("valid", some (.boolean r.valid)),
    ("errors", some (array ErrorInfo.write r.errors))]

/-- The status with a name. -/
def SubmissionStatus.ofText? : String → Option SubmissionStatus
  | "accepted" => some .accepted
  | "rejected" => some .rejected
  | _ => none

/-- A written status is read back. -/
theorem SubmissionStatus.ofText?_text (s : SubmissionStatus) :
    SubmissionStatus.ofText? s.text = some s := by
  cases s <;> rfl

/-- The submission report that a value holds. -/
def SubmissionReport.read (v : Json) : Decoded SubmissionReport :=
  let fields : Record v SubmissionReport :=
    SubmissionReport.mk <$> .required ["status"] (named SubmissionStatus.ofText?)
      <*> .optional ["locationId"] string
      <*> .defaulted ["locationErrors"] [] (list ErrorInfo.read)
      <*> .defaulted ["perSliceResults"] [] (list SliceReport.read)
  fields.read

/-- The submission report as it is written. -/
def SubmissionReport.write (r : SubmissionReport) : Json :=
  object [("status", some (.string r.status.text)), ("locationId", r.locationId.map .string),
    ("locationErrors", some (array ErrorInfo.write r.locationErrors)),
    ("perSliceResults", some (array SliceReport.write r.slices))]

end EnergyFormula
