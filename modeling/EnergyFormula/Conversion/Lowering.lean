import EnergyFormula.Expression.Basic

/-!
# From named functions to arithmetic

`Expression.lower` turns an expression into a formula.  Formulas know no comparison, branch,
extremum or rounding, so only sums and the functions that stand for an arithmetic operator can be
lowered.  A series becomes the operand that the `Bindings` give for its name, and otherwise a
variable of the same name.
-/

namespace EnergyFormula

/-- Operands for series names, the latest binding of a name first. -/
abbrev Bindings := List (String × Operand)

/-- The bindings with one more; it takes precedence over an earlier one of the same name. -/
def Bindings.bind (bindings : Bindings) (name : String) (operand : Operand) : Bindings :=
  (name, operand) :: bindings

/-- How many operands an operator takes. -/
inductive OperandCount where
  | atLeastOne
  | one
  | two
  deriving DecidableEq

/-- The count in words. -/
def OperandCount.text : OperandCount → String
  | atLeastOne => "at least one operand"
  | one => "one operand"
  | two => "two operands"

/-- The number of operands is as the operator demands. -/
def OperandCount.admits : OperandCount → Nat → Bool
  | atLeastOne, n => 1 ≤ n
  | one, n => n = 1
  | two, n => n = 2

/-- What is wrong with a parameter. -/
inductive ParameterFault where
  | noTerm
  | literal
  | malformed (e : MalformedIdentifier)
  | operandCount (operator : String) (expected : OperandCount)

/-- The fault in words. -/
def ParameterFault.message : ParameterFault → String
  | noTerm => "at least one term is required"
  | literal => "string literals have no arithmetic meaning"
  | malformed e => e.message
  | operandCount operator expected => "'" ++ operator ++ "' takes " ++ expected.text

/-- Why an expression cannot be lowered. -/
inductive ConversionError where
  | unrepresentable (function : DomainFunction)
  | unknownFunction (name : String)
  | invalidParameter (function : DomainFunction) (index : Nat) (fault : ParameterFault)

namespace ConversionError

/-- What formulas lack for a function. -/
def lack : DomainFunction → String
  | .conditionalBranch => "the arithmetic form has no comparison or branch operator"
  | _ => "only sums, differences, products and ratios can be lowered"

/-- The error in words. -/
def message : ConversionError → String
  | unrepresentable function =>
    function.wireName ++ " has no representation in the recursive arithmetic form: " ++
      lack function
  | unknownFunction name => "Unknown function: " ++ name
  | invalidParameter function index fault =>
    function.wireName ++ " parameter " ++ toString index ++ ": " ++ fault.message

/-- The code of the error. -/
def code : ConversionError → ErrorCode
  | unrepresentable _ => .unrepresentableInLoweredForm
  | unknownFunction _ => .unknownFunction
  | invalidParameter _ _ _ => .invalidParameter

end ConversionError

instance : Reportable ConversionError :=
  ⟨ConversionError.code, ConversionError.message⟩

/-- The operand of a constant parameter. -/
def lowerConstant (function : DomainFunction) (index : Nat) (value : Float) :
    Except ConversionError Operand :=
  match ConstLiteral.ofNumber value with
  | .ok c => .ok (.constant c)
  | .error e => .error (.invalidParameter function index (.malformed e))

/-- The operand of a series without a factor. -/
def lowerReference (bindings : Bindings) (function : DomainFunction) (index : Nat)
    (name : String) : Except ConversionError Operand :=
  match bindings.lookup name with
  | some operand => .ok operand
  | none =>
    match Identifier.parse .formulaVariable name with
    | .ok v => .ok (.variable v)
    | .error e => .error (.invalidParameter function index (.malformed e))

/-- The product of a series and its factor. -/
def lowerScaled (bindings : Bindings) (function : DomainFunction) (index : Nat) (name : String)
    (factor : Float) : Except ConversionError Formula := do
  let reference ← lowerReference bindings function index name
  let constant ← lowerConstant function index factor
  return .mul [reference, constant]

/-- The formula of an operator over operands that are lowered already. -/
def operatorFormula (name : String) (operands : List Operand) : Except ConversionError Formula :=
  let wrongCount (expected : OperandCount) : ConversionError :=
    .invalidParameter (.extension name) operands.length (.operandCount name expected)
  match name, operands with
  | "add", [] => .error (wrongCount .atLeastOne)
  | "mul", [] => .error (wrongCount .atLeastOne)
  | "div", [] => .error (wrongCount .atLeastOne)
  | "add", ops => .ok (.add ops)
  | "mul", ops => .ok (.mul ops)
  | "div", ops => .ok (.div ops)
  | "sub", [a, b] => .ok (.sub a b)
  | "sub", _ => .error (wrongCount .two)
  | "pos", [op] => .ok (.pos op)
  | "pos", _ => .error (wrongCount .one)
  | "operand", [op] => .ok (.operand op)
  | "operand", _ => .error (wrongCount .one)
  | other, _ => .error (.unknownFunction other)

mutual

/-- The formula of an expression.  A sum of one term is that term; in a longer sum every series is
written with its factor. -/
def Expression.lower (bindings : Bindings) : Expression → Except ConversionError Formula
  | .apply .groupedSum [] => .error (.invalidParameter .groupedSum 0 .noTerm)
  | .apply .groupedSum [p] => p.lowerAlone bindings
  | .apply .groupedSum ps => do
    let terms ← Parameter.lowerAll bindings true .groupedSum 0 ps
    return .add terms
  | .apply (.extension name) ps =>
    if DomainFunction.operatorNames.contains name then do
      let operands ← Parameter.lowerAll bindings false (.extension name) 0 ps
      operatorFormula name operands
    else .error (.unknownFunction name)
  | .apply function _ => .error (.unrepresentable function)

/-- The formula of a sum that has one term. -/
def Parameter.lowerAlone (bindings : Bindings) : Parameter → Except ConversionError Formula
  | .series name factor =>
    if factor == 1 then do
      let reference ← lowerReference bindings .groupedSum 0 name
      return .operand reference
    else lowerScaled bindings .groupedSum 0 name factor
  | .constant value => do
    let constant ← lowerConstant .groupedSum 0 value
    return .operand constant
  | .expression e => do
    let f ← e.lower bindings
    return .operand (.nested f)
  | .literal _ => .error (.invalidParameter .groupedSum 0 .literal)

/-- The operand of a parameter.  A series without a factor is a bare reference, unless every series
is to be `scaled`. -/
def Parameter.lower (bindings : Bindings) (scaled : Bool) (function : DomainFunction)
    (index : Nat) : Parameter → Except ConversionError Operand
  | .series name factor =>
    if !scaled && factor == 1 then lowerReference bindings function index name
    else do
      let product ← lowerScaled bindings function index name factor
      return .nested product
  | .constant value => lowerConstant function index value
  | .expression e => do
    let f ← e.lower bindings
    return .nested f
  | .literal _ => .error (.invalidParameter function index .literal)

/-- The operands of parameters that are counted from `index` on; the first error counts. -/
def Parameter.lowerAll (bindings : Bindings) (scaled : Bool) (function : DomainFunction)
    (index : Nat) : List Parameter → Except ConversionError (List Operand)
  | [] => .ok []
  | p :: rest => do
    let operand ← p.lower bindings scaled function index
    let operands ← Parameter.lowerAll bindings scaled function (index + 1) rest
    return operand :: operands

end

end EnergyFormula
