import EnergyFormula.Evaluation.Workspace

/-!
# Evaluating formulas

`Formula.eval` evaluates a formula over the series of a workspace, operand by operand from left to
right; the first failure counts.
-/

namespace EnergyFormula

/-- An operator over a list needs an operand. -/
def requireOperands (operator : String) : Option (Except EvalError Signal) →
    Except EvalError Signal
  | some result => result
  | none => .error (.of (.emptyOperands operator))

mutual

/-- The signal of a formula. -/
def Formula.eval (w : Workspace) : Formula → Except EvalError Signal
  | .add ops => do
    let signals ← Operand.evalAll w ops
    requireOperands "add" ((Signal.sum? signals).map .ok)
  | .sub a b => do
    let minuend ← a.eval w
    let subtrahend ← b.eval w
    return Signal.combine (· - ·) minuend subtrahend
  | .mul ops => do
    let signals ← Operand.evalAll w ops
    requireOperands "mul" ((Signal.product? signals).map .ok)
  | .div ops => do
    let signals ← Operand.evalAll w ops
    requireOperands "div" (Signal.divide? signals)
  | .pos op => do
    let signal ← op.eval w
    return signal.abs
  | .operand op => op.eval w

/-- The signal of an operand. -/
def Operand.eval (w : Workspace) : Operand → Except EvalError Signal
  | .meter m => do
    let signal ← w.series m.meter.text
    return signal.scale m.effectiveFactor
  | .constant c => .ok (.constant c.value)
  | .variable v => w.series v.text
  | .nested f => f.eval w

/-- The signals of several operands. -/
def Operand.evalAll (w : Workspace) : List Operand → Except EvalError (List Signal)
  | [] => .ok []
  | op :: rest => do
    let signal ← op.eval w
    let signals ← Operand.evalAll w rest
    return signal :: signals

end

/-- The names under which a formula looks up its series. -/
def Formula.names (f : Formula) : List String :=
  f.references.map Reference.name

/-- The signal of a formula on a grid, over the inputs that it names. -/
def Formula.signal (f : Formula) (inputs : Inputs) (grid : Grid) : Except EvalError Signal := do
  let workspace ← Workspace.prepare grid inputs f.names
  f.eval workspace

/-- The samples of a formula on a grid.  A formula deeper than `maxDepth` is not evaluated. -/
def Formula.samples (f : Formula) (maxDepth : Nat) (inputs : Inputs) (grid : Grid) :
    Except EvalError (Array Sample) :=
  if maxDepth < f.depth then .error (.of (.depthExceeded f.depth maxDepth))
  else do
    let signal ← f.signal inputs grid
    return signal.samples grid.length

end EnergyFormula
