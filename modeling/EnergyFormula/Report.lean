/-!
# Reported problems

An `ErrorCode` is the stable name of a kind of problem, an `ErrorInfo` one reported problem: code,
message and, where it has one, the place it was found at.  Every error type of the library says by
an instance of `Reportable` which code and which message it is reported with.
`ErrorCode.ofText?_text` says that the written codes are read back.
-/

namespace EnergyFormula

/-- The stable codes of reported problems. -/
inductive ErrorCode where
  | malformedIdentifier
  | outOfRangePercent
  | malformedTimestamp
  | invalidOperandUnion
  | invalidCalculationFormulaUnion
  | invalidLocationUnion
  | emptyOperandList
  | emptyTimeSlices
  | overlappingTimeSlice
  | invalidTimeSlicePeriod
  | depthLimitExceeded
  | unrepresentableInLoweredForm
  | unknownFunction
  | invalidParameter
  | unresolvedTimeSeriesReference
  | misalignedResolution
  | divisionByZero
  | notEvaluable
  | incompleteInput
  | uncoveredPeriod
  | invalidEnvelope
  deriving DecidableEq

/-- What a problem is about. -/
inductive ErrorCategory where
  /-- The form of identifiers and literals. -/
  | identifier
  /-- The shape of formulas, time slices and locations. -/
  | structural
  /-- The way from named functions to arithmetic. -/
  | conversion
  /-- The calculation over time series. -/
  | evaluation
  /-- The data that accompanies a submission. -/
  | envelope
  deriving DecidableEq

/-- How prominently a problem is logged. -/
inductive LogLevel where
  | info
  | warn
  deriving DecidableEq

namespace ErrorCode

/-- The written form of a code. -/
def text : ErrorCode → String
  | malformedIdentifier => "MALFORMED_IDENTIFIER"
  | outOfRangePercent => "OUT_OF_RANGE_PERCENT"
  | malformedTimestamp => "MALFORMED_TIMESTAMP"
  | invalidOperandUnion => "INVALID_OPERAND_UNION"
  | invalidCalculationFormulaUnion => "INVALID_CALCULATION_FORMULA_UNION"
  | invalidLocationUnion => "INVALID_LOCATION_UNION"
  | emptyOperandList => "EMPTY_OPERAND_LIST"
  | emptyTimeSlices => "EMPTY_TIME_SLICES"
  | overlappingTimeSlice => "OVERLAPPING_TIME_SLICE"
  | invalidTimeSlicePeriod => "INVALID_TIME_SLICE_PERIOD"
  | depthLimitExceeded => "DEPTH_LIMIT_EXCEEDED"
  | unrepresentableInLoweredForm => "UNREPRESENTABLE_IN_LOWERED_FORM"
  | unknownFunction => "UNKNOWN_FUNCTION"
  | invalidParameter => "INVALID_PARAMETER"
  | unresolvedTimeSeriesReference => "UNRESOLVED_TIME_SERIES_REFERENCE"
  | misalignedResolution => "MISALIGNED_RESOLUTION"
  | divisionByZero => "DIVISION_BY_ZERO"
  | notEvaluable => "NOT_EVALUABLE"
  | incompleteInput => "INCOMPLETE_INPUT"
  | uncoveredPeriod => "UNCOVERED_PERIOD"
  | invalidEnvelope => "INVALID_ENVELOPE"

/-- Every code. -/
def all : List ErrorCode :=
  [malformedIdentifier, outOfRangePercent, malformedTimestamp, invalidOperandUnion,
    invalidCalculationFormulaUnion, invalidLocationUnion, emptyOperandList, emptyTimeSlices,
    overlappingTimeSlice, invalidTimeSlicePeriod, depthLimitExceeded,
    unrepresentableInLoweredForm, unknownFunction, invalidParameter,
    unresolvedTimeSeriesReference, misalignedResolution, divisionByZero, notEvaluable,
    incompleteInput, uncoveredPeriod, invalidEnvelope]

/-- The code with a written form. -/
def ofText? (s : String) : Option ErrorCode :=
  all.find? fun code => code.text = s

/-- A written code is read back. -/
theorem ofText?_text (code : ErrorCode) : ofText? code.text = some code := by
  cases code <;> decide

/-- The category of a code. -/
def category : ErrorCode → ErrorCategory
  | malformedIdentifier | outOfRangePercent | malformedTimestamp => .identifier
  | invalidOperandUnion | invalidCalculationFormulaUnion | invalidLocationUnion
  | emptyOperandList | emptyTimeSlices | overlappingTimeSlice | invalidTimeSlicePeriod
  | depthLimitExceeded => .structural
  | unrepresentableInLoweredForm | unknownFunction | invalidParameter => .conversion
  | unresolvedTimeSeriesReference | misalignedResolution | divisionByZero | notEvaluable
  | incompleteInput | uncoveredPeriod => .evaluation
  | invalidEnvelope => .envelope

end ErrorCode

/-- Problems of a calculation are warnings, all others information. -/
def ErrorCategory.level : ErrorCategory → LogLevel
  | .evaluation => .warn
  | _ => .info

/-- One reported problem. -/
structure ErrorInfo where
  code : ErrorCode
  message : String
  /-- Where it was found, such as `timeSlice[0].calculationFormula.add[1]`. -/
  path : Option String
  deriving DecidableEq

/-- The problem in one line. -/
def ErrorInfo.text (info : ErrorInfo) : String :=
  let place := match info.path with
    | some path => path ++ ": "
    | none => ""
  "[" ++ info.code.text ++ "] " ++ place ++ info.message

/-- An error that can be reported. -/
class Reportable (ε : Type) where
  code : ε → ErrorCode
  message : ε → String

/-- The error as a reported problem without a place. -/
def Reportable.info {ε : Type} [Reportable ε] (e : ε) : ErrorInfo :=
  ⟨Reportable.code e, Reportable.message e, none⟩

/-- The error as a problem that was found at a place. -/
def Reportable.infoAt {ε : Type} [Reportable ε] (e : ε) (path : String) : ErrorInfo :=
  ⟨Reportable.code e, Reportable.message e, some path⟩

end EnergyFormula
