import EnergyFormula.Document.Record
import EnergyFormula.Settings

/-!
# Settings documents

The written form of the settings, in which every field may be absent.
-/

namespace EnergyFormula

open Document

/-- The settings that a value holds. -/
def Settings.read (v : Json) : Decoded Settings :=
  let absent : Settings := default
  let fields : Record v Settings :=
    Settings.mk <$> .defaulted ["max_formula_depth"] absent.maxFormulaDepth (natural 64)
      <*> .defaulted ["max_concurrent_calculations"] absent.maxConcurrentCalculations (natural 64)
      <*> .defaulted ["quantity_scale"] absent.quantityScale (natural 32)
  fields.read

/-- The settings as they are written. -/
def Settings.write (s : Settings) : Json :=
  .object [("max_formula_depth", .integer s.maxFormulaDepth),
    ("max_concurrent_calculations", .integer s.maxConcurrentCalculations),
    ("quantity_scale", .integer s.quantityScale)]

end EnergyFormula
