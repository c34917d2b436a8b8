import EnergyFormula.Expression.Basic

/-!
# From arithmetic to named functions

`Formula.lift` renders a formula as an expression.  Sums, and single terms, become `Grp_Sum`; every
other operator becomes the function of the same name.  A series times a constant is written as one
reference with a factor, and a meter as a reference to its location with the factor that its
losses and its distribution leave.
-/

namespace EnergyFormula

mutual

/-- The expression of a formula. -/
def Formula.lift : Formula → Expression
  | .add ops => .apply .groupedSum (Operand.liftAll ops)
  | .sub a b => .apply (.extension "sub") [a.lift, b.lift]
  | .mul ops =>
    match Operand.scaledSeries? ops with
    | some p => .apply .groupedSum [p]
    | none => .apply (.extension "mul") (Operand.liftAll ops)
  | .div ops => .apply (.extension "div") (Operand.liftAll ops)
  | .pos op => .apply (.extension "pos") [op.lift]
  | .operand op => .apply .groupedSum [op.lift]

/-- The parameter of an operand. -/
def Operand.lift : Operand → Parameter
  | .variable v => .series v.text 1
  | .meter m => .series m.meter.text m.effectiveFactor
  | .constant c => .constant c.value
  | .nested (.mul ops) =>
    match Operand.scaledSeries? ops with
    | some p => p
    | none => .expression (.apply (.extension "mul") (Operand.liftAll ops))
  | .nested f => .expression f.lift

/-- The parameters of several operands. -/
def Operand.liftAll : List Operand → List Parameter
  | [] => []
  | op :: rest => op.lift :: Operand.liftAll rest

/-- A series and a constant as one reference; the factor is the product of both. -/
def Operand.scaledSeries? : List Operand → Option Parameter
  | [op, .constant c] =>
    match op.lift with
    | .series name factor => some (.series name (factor * c.value))
    | _ => none
  | _ => none

end

end EnergyFormula
