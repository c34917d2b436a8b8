import EnergyFormula.Expression.Basic
import EnergyFormula.Location.Basic
import EnergyFormula.Series.Basic

/-!
# Why an evaluation fails

An `EvalError` is a cause and, if the failure belongs to a single interval of the output, the
position of that interval.  Code and words follow from the cause; the position is added to the text
and becomes the path of the reported problem.
-/

namespace EnergyFormula

/-- How many parameters a function takes. -/
inductive ParameterCount where
  | atLeastOne
  | one
  | two
  | five
  deriving DecidableEq

/-- The count in words. -/
def ParameterCount.text : ParameterCount → String
  | atLeastOne => "at least one parameter"
  | one => "one parameter"
  | two => "2 parameters"
  | five => "five parameters"

/-- Most decimal places that a value can be rounded to. -/
def maxRoundPlaces : Nat :=
  28

/-- Which number of a parameter is not finite. -/
inductive ParameterNumber where
  | constant
  | factor
  deriving DecidableEq

/-- The number in words. -/
def ParameterNumber.text : ParameterNumber → String
  | constant => "constant"
  | factor => "scaling factor"

/-- Why an evaluation fails. -/
inductive EvalCause where
  | divisionByZero
  /-- No input has the name of a reference. -/
  | unresolved (name : String)
  | invalidPeriod (e : InvalidPeriod)
  | invalidResolution (e : InvalidResolution)
  | notEvaluable (e : NotEvaluable)
  /-- The period is not a whole number of output intervals. -/
  | unevenPeriod (period : Period) (resolution : Resolution)
  | coarserInput (id : String) (input output : Resolution)
  | indivisibleInput (id : String) (input output : Resolution)
  | outOfPhase (id : String)
  /-- The input covers less than the period of the evaluation. -/
  | shortInput (id : String) (covered needed : Period)
  | missingInterval (id : String) (start : Instant)
  | cutInterval (id : String) (start : Instant)
  | emptyOperands (operator : String)
  | depthExceeded (depth limit : Nat)
  | parameterCount (function : DomainFunction) (expected : ParameterCount) (got : Nat)
  | unknownComparison (function : DomainFunction) (operator : String)
  | noComparison (function : DomainFunction) (typeName : String)
  | nonFinite (function : DomainFunction) (index : Nat) (number : ParameterNumber)
      (value : Float)
  | literalParameter (function : DomainFunction) (index : Nat)
  | decimalPlaces (function : DomainFunction)
  | unknownFunction (name : String)
  /-- No slice of the location is valid over a part of the period. -/
  | uncovered (location : LocationId) (start stop : Instant)
  /-- A slice changes within an output interval. -/
  | sliceBoundary (id : Int) (window : Period) (resolution : Resolution)
  | sliceOutside (id : Int) (validity period : Period)
  | noSuchSlice (id : Int) (location : LocationId)
  /-- A cause that lies in one slice of a location. -/
  | inSlice (id : Int) (cause : EvalCause)
  /-- A failure of which only code and words are known. -/
  | stated (code : ErrorCode) (message : String)

namespace EvalCause

/-- The cause in words. -/
def message : EvalCause → String
  | divisionByZero => "Division by zero"
  | unresolved name => "Time series '" ++ name ++ "' is not present in the supplied inputs"
  | invalidPeriod e => Reportable.message e
  | invalidResolution e => Reportable.message e
  | notEvaluable e => Reportable.message e
  | unevenPeriod period resolution =>
    "Period " ++ period.text ++ " is not a whole number of " ++ resolution.text ++ " intervals"
  | coarserInput id input output =>
    "Input '" ++ id ++ "' at " ++ input.text ++ " is coarser than the output resolution " ++
      output.text
  | indivisibleInput id input output =>
    "Input '" ++ id ++ "' at " ++ input.text ++ " does not divide the output resolution " ++
      output.text
  | outOfPhase id => "Input '" ++ id ++ "' intervals are not aligned with the output grid"
  | shortInput id covered needed =>
    "Input '" ++ id ++ "' covers " ++ covered.text ++ ", evaluation needs " ++ needed.text
  | missingInterval id start => "Input '" ++ id ++ "' has no interval at " ++ start.text
  | cutInterval id start =>
    "Input '" ++ id ++ "' ends inside the interval starting at " ++ start.text
  | emptyOperands operator => "'" ++ operator ++ "' has no operands"
  | depthExceeded depth limit =>
    "Formula depth " ++ toString depth ++ " exceeds the limit of " ++ toString limit
  | parameterCount function expected got =>
    function.wireName ++ " takes " ++ expected.text ++ ", got " ++ toString got
  | unknownComparison function operator =>
    function.wireName ++ " parameter 1: unknown comparison operator '" ++ operator ++ "'"
  | noComparison function typeName =>
    function.wireName ++ " parameter 1: expected a comparison operator, got " ++ typeName
  | nonFinite function index number value =>
    function.wireName ++ " parameter " ++ toString index ++ ": " ++ number.text ++ " " ++
      Number.plain value ++ " is not a finite number"
  | literalParameter function index =>
    function.wireName ++ " parameter " ++ toString index ++
      ": string literals are only valid as a comparison operator"
  | decimalPlaces function =>
    function.wireName ++ " parameter 1: decimal places must be a whole constant between 0 and " ++
      toString maxRoundPlaces
  | unknownFunction name => "Unknown function: " ++ name
  | uncovered location start stop =>
    "No time slice of " ++ location.text ++ " is valid from " ++ start.text ++ " to " ++ stop.text
  | sliceBoundary id window resolution =>
    "Time slice " ++ toString id ++ " validity " ++ window.text ++ " does not fall on " ++
      resolution.text ++ " interval boundaries"
  | sliceOutside id validity period =>
    "Time slice " ++ toString id ++ " (" ++ validity.text ++ ") does not overlap " ++ period.text
  | noSuchSlice id location =>
    "Time slice " ++ toString id ++ " does not exist in " ++ location.text
  | inSlice id cause => "Time slice " ++ toString id ++ ": " ++ cause.message
  | stated _ message => message

/-- The code of the cause. -/
def code : EvalCause → ErrorCode
  | divisionByZero => .divisionByZero
  | unresolved _ => .unresolvedTimeSeriesReference
  | invalidPeriod e => Reportable.code e
  | invalidResolution e => Reportable.code e
  | notEvaluable e => Reportable.code e
  | unevenPeriod _ _ | coarserInput _ _ _ | indivisibleInput _ _ _ | outOfPhase _
  | sliceBoundary _ _ _ => .misalignedResolution
  | shortInput _ _ _ | missingInterval _ _ | cutInterval _ _ => .incompleteInput
  | emptyOperands _ => .emptyOperandList
  | depthExceeded _ _ => .depthLimitExceeded
  | parameterCount _ _ _ | unknownComparison _ _ | noComparison _ _ | nonFinite _ _ _ _
  | literalParameter _ _ | decimalPlaces _ | noSuchSlice _ _ => .invalidParameter
  | unknownFunction _ => .unknownFunction
  | uncovered _ _ _ | sliceOutside _ _ _ => .uncoveredPeriod
  | inSlice _ cause => cause.code
  | stated code _ => code

end EvalCause

/-- A failed evaluation. -/
structure EvalError where
  cause : EvalCause
  /-- The position of the output interval that the failure belongs to, counted from 1. -/
  position : Option Int

namespace EvalError

/-- A failure that belongs to no single interval. -/
def of (cause : EvalCause) : EvalError :=
  ⟨cause, none⟩

/-- A failure in an interval of the output. -/
def atPosition (cause : EvalCause) (position : Int) : EvalError :=
  ⟨cause, some position⟩

/-- The code of the failure. -/
def code (e : EvalError) : ErrorCode :=
  e.cause.code

/-- The failure in words, followed by the position if there is one. -/
def text (e : EvalError) : String :=
  match e.position with
  | some p => e.cause.message ++ " (interval " ++ toString p ++ ")"
  | none => e.cause.message

/-- The failure as a reported problem; the position is its path. -/
def info (e : EvalError) : ErrorInfo :=
  ⟨e.code, e.cause.message, e.position.map fun p => "interval[" ++ toString p ++ "]"⟩

/-- The same failure, said of a slice. -/
def inSlice (id : Int) (e : EvalError) : EvalError :=
  ⟨.inSlice id e.cause, e.position⟩

end EvalError

end EnergyFormula
