import EnergyFormula.Document.Record
import EnergyFormula.Formula.Basic

/-!
# Formula documents

The interchange form of formulas.  Every field of it is optional, so that a document with missing
fields or with several operators at once can still be read and all of its defects be reported
together.  `FormulaDocument.read` reads such a document, `FormulaDocument.write` writes it, and
`Formula.document` is the document of a formula, in which exactly one field of each is present.
-/

namespace EnergyFormula

/-- A share, as a number or as text. -/
structure PercentDocument where
  value : Option Json

/-- A metered quantity. -/
structure MeterDocument where
  meter : Option String
  direction : Option String
  transformerLoss : Option PercentDocument
  conductionLoss : Option PercentDocument
  distribution : Option PercentDocument

mutual

/-- A formula: of its operators one should be present. -/
structure FormulaDocument where
  add : Option (List OperandDocument)
  sub : Option DifferenceDocument
  mul : Option (List OperandDocument)
  div : Option (List OperandDocument)
  pos : Option OperandDocument
  operand : Option OperandDocument

/-- The two operands of a difference. -/
structure DifferenceDocument where
  minuend : Option OperandDocument
  subtrahend : Option OperandDocument

/-- An operand: of its variants one should be present. -/
structure OperandDocument where
  meter : Option MeterDocument
  constant : Option Json
  formulaVariable : Option String
  nested : Option FormulaDocument

end

/-- The names of the fields that are present. -/
def presentNames (fields : List (String × Bool)) : List String :=
  (fields.filter Prod.snd).map Prod.fst

/-- The operators that are present. -/
def FormulaDocument.operators (d : FormulaDocument) : List String :=
  presentNames [("add", d.add.isSome), ("sub", d.sub.isSome), ("mul", d.mul.isSome),
    ("div", d.div.isSome), ("pos", d.pos.isSome), ("operand", d.operand.isSome)]

/-- The variants that are present. -/
def OperandDocument.variants (d : OperandDocument) : List String :=
  presentNames [("meloOperand", d.meter.isSome), ("const", d.constant.isSome),
    ("formulaVar", d.formulaVariable.isSome), ("calculationFormula", d.nested.isSome)]

/-! ### Reading -/

open Document

/-- The share that a value holds. -/
def PercentDocument.read (v : Json) : Decoded PercentDocument :=
  let fields : Record v PercentDocument :=
    PercentDocument.mk <$> .optional ["percentvalue"] anything
  fields.read

/-- The metered quantity that a value holds. -/
def MeterDocument.read (v : Json) : Decoded MeterDocument :=
  let fields : Record v MeterDocument :=
    MeterDocument.mk <$> .optional ["meloId"] string
      <*> .optional ["energyDirection"] string
      <*> .optional ["lossFactorTransformer"] PercentDocument.read
      <*> .optional ["lossFactorConduction"] PercentDocument.read
      <*> .optional ["distributionFactorEnergyQuantity"] PercentDocument.read
  fields.read

mutual

/-- The formula that a value holds. -/
def FormulaDocument.read (v : Json) : Decoded FormulaDocument :=
  let row (key : String) : Record v (Option (List OperandDocument)) :=
    .optionalPart [key] fun row => do
      let items ← parts row.1
      items.mapM fun item => OperandDocument.read item.1
  let single (key : String) : Record v (Option OperandDocument) :=
    .optionalPart [key] fun part => OperandDocument.read part.1
  let fields : Record v FormulaDocument :=
    FormulaDocument.mk <$> row "add"
      <*> .optionalPart ["sub"] (fun part => DifferenceDocument.read part.1)
      <*> row "mul" <*> row "div" <*> single "pos" <*> single "operand"
  fields.read
termination_by sizeOf v
decreasing_by
  · exact Nat.lt_trans item.2 row.2
  · exact part.2
  · exact part.2

/-- The difference that a value holds. -/
def DifferenceDocument.read (v : Json) : Decoded DifferenceDocument :=
  let single (key : String) : Record v (Option OperandDocument) :=
    .optionalPart [key] fun part => OperandDocument.read part.1
  let fields : Record v DifferenceDocument :=
    DifferenceDocument.mk <$> single "minuend" <*> single "subtrahend"
  fields.read
termination_by sizeOf v
decreasing_by exact part.2

/-- The operand that a value holds. -/
def OperandDocument.read (v : Json) : Decoded OperandDocument :=
  let fields : Record v OperandDocument :=
    OperandDocument.mk <$> .optional ["meloOperand", "meterOperand"] MeterDocument.read
      <*> .optional ["const", "constant"] anything
      <*> .optional ["formulaVar", "variable"] string
      <*> .optionalPart ["calculationFormula", "nestedFormula"]
        (fun part => FormulaDocument.read part.1)
  fields.read
termination_by sizeOf v
decreasing_by exact part.2

end

/-! ### Writing -/

/-- The share as it is written. -/
def PercentDocument.write (d : PercentDocument) : Json :=
  object [("percentvalue", d.value)]

/-- The metered quantity as it is written. -/
def MeterDocument.write (d : MeterDocument) : Json :=
  object [("meloId", d.meter.map .string),
    ("energyDirection", d.direction.map .string),
    ("lossFactorTransformer", d.transformerLoss.map PercentDocument.write),
    ("lossFactorConduction", d.conductionLoss.map PercentDocument.write),
    ("distributionFactorEnergyQuantity", d.distribution.map PercentDocument.write)]

mutual

/-- The formula as it is written. -/
def FormulaDocument.write : FormulaDocument → Json
  | ⟨add, sub, mul, div, pos, operand⟩ =>
    object [("add", OperandDocument.writeRow? add), ("sub", DifferenceDocument.write? sub),
      ("mul", OperandDocument.writeRow? mul), ("div", OperandDocument.writeRow? div),
      ("pos", OperandDocument.write? pos), ("operand", OperandDocument.write? operand)]

/-- A difference, if there is one. -/
def DifferenceDocument.write? : Option DifferenceDocument → Option Json
  | none => none
  | some ⟨minuend, subtrahend⟩ =>
    some (object [("minuend", OperandDocument.write? minuend),
      ("subtrahend", OperandDocument.write? subtrahend)])

/-- The operand as it is written. -/
def OperandDocument.write : OperandDocument → Json
  | ⟨meter, constant, formulaVariable, nested⟩ =>
    object [("meloOperand", meter.map MeterDocument.write), ("const", constant),
      ("formulaVar", formulaVariable.map .string),
      ("calculationFormula", FormulaDocument.write? nested)]

/-- An operand, if there is one. -/
def OperandDocument.write? : Option OperandDocument → Option Json
  | none => none
  | some d => some d.write

/-- A formula, if there is one. -/
def FormulaDocument.write? : Option FormulaDocument → Option Json
  | none => none
  | some d => some d.write

/-- A row of operands, if there is one. -/
def OperandDocument.writeRow? : Option (List OperandDocument) → Option Json
  | none => none
  | some ds => some (.array (OperandDocument.writeAll ds))

/-- Several operands. -/
def OperandDocument.writeAll : List OperandDocument → List Json
  | [] => []
  | d :: rest => d.write :: OperandDocument.writeAll rest

end

/-- The difference as it is written. -/
def DifferenceDocument.write (d : DifferenceDocument) : Json :=
  object [("minuend", OperandDocument.write? d.minuend),
    ("subtrahend", OperandDocument.write? d.subtrahend)]

/-! ### Documents of formulas -/

/-- The document without an operator. -/
def FormulaDocument.empty : FormulaDocument :=
  ⟨none, none, none, none, none, none⟩

/-- The document without a variant. -/
def OperandDocument.empty : OperandDocument :=
  ⟨none, none, none, none⟩

/-- The document of a share: a float, even if it is whole. -/
def Percent.document (p : Percent) : PercentDocument :=
  ⟨some (.float p.value)⟩

/-- The document of a metered quantity. -/
def MeterOperand.document (m : MeterOperand) : MeterDocument :=
  { meter := some m.meter.text
    direction := some m.direction.text
    transformerLoss := some m.transformerLoss.document
    conductionLoss := some m.conductionLoss.document
    distribution := some m.distribution.document }

mutual

/-- The document of a formula. -/
def Formula.document : Formula → FormulaDocument
  | .add ops => { FormulaDocument.empty with add := some (Operand.documents ops) }
  | .sub a b => { FormulaDocument.empty with sub := some ⟨some a.document, some b.document⟩ }
  | .mul ops => { FormulaDocument.empty with mul := some (Operand.documents ops) }
  | .div ops => { FormulaDocument.empty with div := some (Operand.documents ops) }
  | .pos op => { FormulaDocument.empty with pos := some op.document }
  | .operand op => { FormulaDocument.empty with operand := some op.document }

/-- The document of an operand; a constant keeps its text. -/
def Operand.document : Operand → OperandDocument
  | .meter m => { OperandDocument.empty with meter := some m.document }
  | .constant c => { OperandDocument.empty with constant := some (.string c.text) }
  | .variable v => { OperandDocument.empty with formulaVariable := some v.text }
  | .nested f => { OperandDocument.empty with nested := some f.document }

/-- The documents of several operands. -/
def Operand.documents : List Operand → List OperandDocument
  | [] => []
  | op :: rest => op.document :: Operand.documents rest

end

end EnergyFormula
