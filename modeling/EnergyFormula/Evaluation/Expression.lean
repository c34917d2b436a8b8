import EnergyFormula.Evaluation.Workspace

/-!
# Evaluating expressions

`Expression.eval` evaluates an expression over the series of a workspace.  The number of parameters
is checked first, then all of them are evaluated from left to right, and then the function is
applied (`DomainFunction.applyTo`).  Only a conditional branch treats its parameters differently: of
its two branches, one that fails matters only if it is picked in some interval.
-/

namespace EnergyFormula

/-- The number of parameters is as the function demands. -/
def ParameterCount.admits : ParameterCount → Nat → Bool
  | atLeastOne, n => 1 ≤ n
  | one, n => n = 1
  | two, n => n = 2
  | five, n => n = 5

namespace DomainFunction

/-- How many parameters a function takes.  A conversion takes one or two; any other number than one
is measured against two. -/
def parameterCount (function : DomainFunction) (given : Nat) : ParameterCount :=
  match function with
  | conditionalBranch => .five
  | groupedSum | crossSeriesMax | crossSeriesMin => .atLeastOne
  | portionAboveThreshold | portionBelowThreshold | greaterThan | round => .two
  | meteringTypeConversion => if given = 1 then .one else .two
  | intervalMax | intervalMin => .one
  | extension "sub" => .two
  | extension "pos" => .one
  | extension "operand" => .one
  | extension _ => .atLeastOne

/-- The failure of a function that is given a wrong number of parameters. -/
def wrongCount (function : DomainFunction) (given : Nat) : EvalError :=
  .of (.parameterCount function (function.parameterCount given) given)

/-- The function can be evaluated, and with that many parameters. -/
def check (function : DomainFunction) (given : Nat) : Except EvalError Unit :=
  match function with
  | extension name =>
    if !operatorNames.contains name then .error (.of (.unknownFunction name))
    else if (function.parameterCount given).admits given then .ok ()
    else .error (function.wrongCount given)
  | _ =>
    if (function.parameterCount given).admits given then .ok ()
    else .error (function.wrongCount given)

/-- The decimal places that a signal denotes: a whole constant within the range. -/
def decimalPlaces? : Signal → Option Nat
  | .scalar s => (Number.natural? s.value).filter (· ≤ maxRoundPlaces)
  | .series _ => none

/-- The function applied to evaluated parameters. -/
def applyTo (function : DomainFunction) (signals : List Signal) : Except EvalError Signal :=
  let checked (result : Option Signal) : Except EvalError Signal :=
    match result with
    | some signal => .ok signal
    | none => .error (function.wrongCount signals.length)
  match function, signals with
  | groupedSum, ss => checked (Signal.sum? ss)
  | crossSeriesMax, ss => checked (Signal.crossMax? ss)
  | crossSeriesMin, ss => checked (Signal.crossMin? ss)
  | portionAboveThreshold, [s, t] => .ok (Signal.portionAbove s t)
  | portionBelowThreshold, [s, t] => .ok (Signal.portionBelow s t)
  | greaterThan, [a, b] => .ok (Signal.greaterThan a b)
  | round, [s, places] =>
    match decimalPlaces? places with
    | some n => .ok (s.round n)
    | none => .error (.of (.decimalPlaces round))
  | meteringTypeConversion, [s] => .ok s
  | meteringTypeConversion, [s, factor] => .ok (Signal.combine (· * ·) s factor)
  | intervalMax, [s] => .ok s.intervalMax
  | intervalMin, [s] => .ok s.intervalMin
  | extension "add", ss => checked (Signal.sum? ss)
  | extension "mul", ss => checked (Signal.product? ss)
  | extension "div", ss => (Signal.divide? ss).getD (.error (function.wrongCount ss.length))
  | extension "sub", [a, b] => .ok (Signal.combine (· - ·) a b)
  | extension "pos", [s] => .ok s.abs
  | extension "operand", [s] => .ok s
  | _, ss => .error (function.wrongCount ss.length)

end DomainFunction

/-- A number of a parameter must be finite. -/
def requireFinite (function : DomainFunction) (index : Nat) (number : ParameterNumber)
    (value : Float) : Except EvalError Float :=
  if value.isFinite then .ok value else .error (.of (.nonFinite function index number value))

mutual

/-- The signal of an expression. -/
def Expression.eval (w : Workspace) : Expression → Except EvalError Signal
  | .apply .conditionalBranch [a, .literal operator, b, thenBranch, otherwise] =>
    match Comparison.parse? operator with
    | none => .error (.of (.unknownComparison .conditionalBranch operator))
    | some comparison => do
      let x ← a.eval w .conditionalBranch 0
      let y ← b.eval w .conditionalBranch 2
      Signal.select (Signal.compare x comparison y)
        (thenBranch.eval w .conditionalBranch 3) (otherwise.eval w .conditionalBranch 4)
        w.grid.length
  | .apply .conditionalBranch [_, operator, _, _, _] =>
    .error (.of (.noComparison .conditionalBranch operator.typeName))
  | .apply function parameters => do
    function.check parameters.length
    let signals ← Parameter.evalAll w function 0 parameters
    function.applyTo signals

/-- The signal of a parameter. -/
def Parameter.eval (w : Workspace) (function : DomainFunction) (index : Nat) :
    Parameter → Except EvalError Signal
  | .constant value => do
    let x ← requireFinite function index .constant value
    return .constant x
  | .series name factor => do
    let k ← requireFinite function index .factor factor
    let signal ← w.series name
    return signal.scale k
  | .expression e => e.eval w
  | .literal _ => .error (.of (.literalParameter function index))

/-- The signals of parameters that are counted from `index` on. -/
def Parameter.evalAll (w : Workspace) (function : DomainFunction) (index : Nat) :
    List Parameter → Except EvalError (List Signal)
  | [] => .ok []
  | p :: rest => do
    let signal ← p.eval w function index
    let signals ← Parameter.evalAll w function (index + 1) rest
    return signal :: signals

end

/-- The signal of an expression on a grid, over the inputs that it names. -/
def Expression.signal (e : Expression) (inputs : Inputs) (grid : Grid) :
    Except EvalError Signal := do
  let workspace ← Workspace.prepare grid inputs e.seriesNames
  e.eval workspace

end EnergyFormula
