import EnergyFormula.Conversion.Lowering
import EnergyFormula.Validation.Location

/-!
# Authored slices

Slices whose formulas are written as expressions.  They are lowered and then validated like any
other document; an expression that cannot be lowered is never validated.
-/

namespace EnergyFormula

/-- A time slice whose formula is an expression. -/
structure AuthoredSlice where
  id : Int
  quality : SliceQuality
  validFrom : Instant
  validTo : Instant
  expression : Expression

/-- The slice with its expression lowered. -/
def AuthoredSlice.lower (s : AuthoredSlice) (bindings : Bindings) :
    Except ConversionError TimeSlice := do
  let formula ← s.expression.lower bindings
  return ⟨s.id, s.quality, s.validFrom, s.validTo, formula⟩

/-- The validation of a location with authored slices; the first expression that cannot be lowered
is an error. -/
def LocationId.validateAuthored (location : LocationId) (slices : List AuthoredSlice)
    (bindings : Bindings) (maxDepth : Nat) : Except ConversionError Validated := do
  let lowered ← slices.mapM fun s => s.lower bindings
  return (location.document (lowered.map TimeSlice.document)).validate maxDepth

end EnergyFormula
