/-!
# Settings

The limits that hold for validation and evaluation.
-/

namespace EnergyFormula

/-- Limits of validation and evaluation. -/
structure Settings where
  /-- The deepest formula that is accepted and evaluated. -/
  maxFormulaDepth : Nat
  /-- The number of calculations of a batch that may run at the same time. -/
  maxConcurrentCalculations : Nat
  /-- Decimal places of the quantities of a produced series. -/
  quantityScale : Nat
  deriving DecidableEq

/-- Depth 32, four calculations at a time, six decimal places. -/
instance : Inhabited Settings :=
  ⟨⟨32, 4, 6⟩⟩

end EnergyFormula
