import EnergyFormula.Identifier.Typed
import EnergyFormula.Distinct

/-!
# Calculation formulas

A `Formula` is a tree of sums, differences, products, quotients and absolute values over operands:
metered quantities, constants, variables and nested formulas.  `Formula.depth` counts its levels,
`Formula.references` names the input series that it reads, and `Formula.text` writes it in infix
form.
-/

namespace EnergyFormula

/-- Direction of the energy flow that is metered. -/
inductive EnergyDirection where
  | consumption
  | production
  deriving DecidableEq

/-- The direction as it is written. -/
def EnergyDirection.text : EnergyDirection → String
  | consumption => "consumption"
  | production => "production"

/-- A metered quantity, reduced by losses and by the share that is distributed. -/
structure MeterOperand where
  meter : MeterLocationId
  direction : EnergyDirection
  transformerLoss : Percent
  conductionLoss : Percent
  distribution : Percent
  deriving BEq

namespace MeterOperand

/-- A metered quantity without losses, distributed as a whole. -/
def lossless (meter : MeterLocationId) (direction : EnergyDirection) : MeterOperand :=
  ⟨meter, direction, .zero, .zero, .one⟩

/-- What is left of a quantity after both losses and the distribution. -/
def effectiveFactor (m : MeterOperand) : Float :=
  (1 - m.transformerLoss.value) * (1 - m.conductionLoss.value) * m.distribution.value

/-- What a raw metered quantity contributes. -/
def effectiveValue (m : MeterOperand) (raw : Float) : Float :=
  raw * m.effectiveFactor

end MeterOperand

mutual

/-- A calculation formula: one operator over operands. -/
inductive Formula where
  /-- The sum of all operands. -/
  | add (operands : List Operand)
  /-- The difference of two operands. -/
  | sub (minuend subtrahend : Operand)
  /-- The product of all operands. -/
  | mul (operands : List Operand)
  /-- The first operand divided by the others, from left to right. -/
  | div (operands : List Operand)
  /-- The absolute value. -/
  | pos (operand : Operand)
  /-- The operand itself. -/
  | operand (operand : Operand)
  deriving BEq

/-- An operand of a formula. -/
inductive Operand where
  | meter (m : MeterOperand)
  | constant (c : ConstLiteral)
  | variable (v : FormulaVariable)
  | nested (f : Formula)
  deriving BEq

end

/-- An input series that a formula reads. -/
inductive Reference where
  | meter (id : MeterLocationId)
  | variable (v : FormulaVariable)
  deriving DecidableEq

namespace Reference

/-- The name under which the series is looked up. -/
def name : Reference → String
  | .meter id => id.text
  | .variable v => v.text

/-- Meters come before variables, and among each kind names ascend. -/
def le : Reference → Reference → Bool
  | .meter a, .meter b => a.text ≤ b.text
  | .meter _, .variable _ => true
  | .variable _, .meter _ => false
  | .variable a, .variable b => a.text ≤ b.text

end Reference

/-- The name of the kind of operand. -/
def Operand.variantName : Operand → String
  | .meter _ => "meloOperand"
  | .constant _ => "const"
  | .variable _ => "formulaVar"
  | .nested _ => "calculationFormula"

/-- The name of the operator. -/
def Formula.operatorName : Formula → String
  | add _ => "add"
  | sub _ _ => "sub"
  | mul _ => "mul"
  | div _ => "div"
  | pos _ => "pos"
  | operand _ => "operand"

/-- The operands of the outermost operator, in the order in which they are evaluated. -/
def Formula.operands : Formula → List Operand
  | add ops => ops
  | sub a b => [a, b]
  | mul ops => ops
  | div ops => ops
  | pos op => [op]
  | operand op => [op]

/-! ### Depth -/

mutual

/-- The number of formulas on the longest way from the root to a leaf. -/
def Formula.depth : Formula → Nat
  | .add ops => 1 + Operand.maxDepth ops
  | .sub a b => 1 + max a.depth b.depth
  | .mul ops => 1 + Operand.maxDepth ops
  | .div ops => 1 + Operand.maxDepth ops
  | .pos op => 1 + op.depth
  | .operand op => 1 + op.depth

/-- The depth of a nested formula, and zero for any other operand. -/
def Operand.depth : Operand → Nat
  | .nested f => f.depth
  | .meter _ => 0
  | .constant _ => 0
  | .variable _ => 0

/-- The greatest depth of several operands. -/
def Operand.maxDepth : List Operand → Nat
  | [] => 0
  | op :: rest => max op.depth (Operand.maxDepth rest)

end

/-- A formula is one deeper than its deepest operand. -/
theorem Formula.depth_eq (f : Formula) : f.depth = 1 + Operand.maxDepth f.operands := by
  cases f <;> simp [Formula.depth, Formula.operands, Operand.maxDepth]

/-! ### References -/

mutual

/-- The references of a formula in the order of its operands, repeated ones included. -/
def Formula.allReferences : Formula → List Reference
  | .add ops => Operand.listReferences ops
  | .sub a b => a.allReferences ++ b.allReferences
  | .mul ops => Operand.listReferences ops
  | .div ops => Operand.listReferences ops
  | .pos op => op.allReferences
  | .operand op => op.allReferences

/-- The references of an operand. -/
def Operand.allReferences : Operand → List Reference
  | .meter m => [.meter m.meter]
  | .variable v => [.variable v]
  | .constant _ => []
  | .nested f => f.allReferences

/-- The references of several operands. -/
def Operand.listReferences : List Operand → List Reference
  | [] => []
  | op :: rest => op.allReferences ++ Operand.listReferences rest

end

/-- The references of a formula, sorted and each of them once. -/
def Formula.references (f : Formula) : List Reference :=
  distinct Reference.le f.allReferences

/-- The references are those that occur somewhere in the formula. -/
theorem Formula.mem_references {f : Formula} {r : Reference} :
    r ∈ f.references ↔ r ∈ f.allReferences :=
  mem_distinct

/-! ### Infix form -/

/-- The text of a factor behind a name; the factor one is left out. -/
def scaledText (name : String) (factor : Float) : String :=
  if factor == 1 then name else name ++ "*" ++ Number.plain factor

mutual

/-- The formula in infix form. -/
def Formula.text : Formula → String
  | .add ops => " + ".intercalate (Operand.texts ops)
  | .sub a b => a.text ++ " - " ++ b.text
  | .mul ops => " * ".intercalate (Operand.texts ops)
  | .div ops => " / ".intercalate (Operand.texts ops)
  | .pos op => "|" ++ op.text ++ "|"
  | .operand op => op.text

/-- An operand in infix form; nested formulas stand in parentheses, unless they are a single
operand or an absolute value. -/
def Operand.text : Operand → String
  | .meter m => scaledText m.meter.text m.effectiveFactor
  | .constant c => c.text
  | .variable v => v.text
  | .nested (.pos op) => "|" ++ op.text ++ "|"
  | .nested (.operand op) => op.text
  | .nested f => "(" ++ f.text ++ ")"

/-- The texts of several operands. -/
def Operand.texts : List Operand → List String
  | [] => []
  | op :: rest => op.text :: Operand.texts rest

end

end EnergyFormula
