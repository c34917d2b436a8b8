import EnergyFormula.Document.Formula
import EnergyFormula.Json.Printer
import EnergyFormula.Text.Blank
import EnergyFormula.Validation.Checked

/-!
# Validating formulas

`FormulaDocument.check` turns a formula document into a formula or into all of its findings.  A node
without exactly one operator is still searched for further defects, and so is an operand without
exactly one variant; only below the depth limit nothing is examined any more.
-/

namespace EnergyFormula

/-- The share that a value is: a number, or text in the published pattern. -/
def Percent.ofJson : Json → Except MalformedIdentifier Percent
  | .string s => Percent.parse s
  | v =>
    match v.toFloat? with
    | some x => Percent.ofNumber x
    | none => .error ⟨.percentValue, v.compact⟩

/-- The constant that a value is: text, or a number by its notation. -/
def ConstLiteral.ofJson : Json → Except MalformedIdentifier ConstLiteral
  | .string s => ConstLiteral.parse s
  | v =>
    match v.toFloat? with
    | some _ => ConstLiteral.parse v.compact
    | none => .error ⟨.constLiteral, v.compact⟩

/-- The direction with a name; blanks around it and the case of its letters do not count. -/
def EnergyDirection.ofText? (s : String) : Option EnergyDirection :=
  match Text.lower (Text.trimmed s) with
  | "consumption" => some .consumption
  | "production" => some .production
  | _ => none

/-- The share in a field; `absent` where the field or its value is absent. -/
def PercentDocument.check (absent : Percent) (field : String) (d : Option PercentDocument) :
    Checked Percent :=
  match d.bind PercentDocument.value with
  | some v => (Checked.ofExcept Defect.malformed (Percent.ofJson v)).within [.field field]
  | none => .valid absent

/-- The meter of a metered quantity. -/
def MeterDocument.checkMeter (d : MeterDocument) : Checked MeterLocationId :=
  let check := match d.meter with
    | some s => Checked.ofExcept Defect.malformed (Identifier.parse .meterLocationId s)
    | none => .fail (.here (.missingIdentifier "meloId"))
  check.within [.field "meloId"]

/-- The direction of a metered quantity: consumption unless it is given. -/
def MeterDocument.checkDirection (d : MeterDocument) : Checked EnergyDirection :=
  match d.direction with
  | some s =>
    match EnergyDirection.ofText? s with
    | some direction => .valid direction
    | none => .fail (.inField "energyDirection" (.unknownDirection s))
  | none => .valid .consumption

/-- The metered quantity of a document. -/
def MeterDocument.check (d : MeterDocument) : Checked MeterOperand :=
  MeterOperand.mk <$> d.checkMeter <*> d.checkDirection
    <*> PercentDocument.check .zero "lossFactorTransformer" d.transformerLoss
    <*> PercentDocument.check .zero "lossFactorConduction" d.conductionLoss
    <*> PercentDocument.check .one "distributionFactorEnergyQuantity" d.distribution

/-- The checks of the alternatives that are present. -/
def presentChecks {α : Type} (alternatives : List (Option (Checked α))) : List (Checked α) :=
  alternatives.filterMap id

mutual

/-- The formula of a document that is `depth` formulas deep in the root document. -/
def FormulaDocument.check (limit depth : Nat) : FormulaDocument → Checked Formula
  | ⟨add, sub, mul, div, pos, operand⟩ =>
    if limit < depth then .fail (.here (.depthExceeded limit))
    else
      let alternatives := presentChecks
        [OperandDocument.checkRow? limit depth "add" .add add,
          DifferenceDocument.check? limit depth sub,
          OperandDocument.checkRow? limit depth "mul" .mul mul,
          OperandDocument.checkRow? limit depth "div" .div div,
          OperandDocument.checkSingle? limit depth "pos" .pos pos,
          OperandDocument.checkSingle? limit depth "operand" .operand operand]
      Checked.only alternatives
        (.here (.formulaUnion (FormulaDocument.operators ⟨add, sub, mul, div, pos, operand⟩)))

/-- The operands of an operator over a row of them, if there is one. -/
def OperandDocument.checkRow? (limit depth : Nat) (operator : String)
    (make : List Operand → Formula) : Option (List OperandDocument) → Option (Checked Formula)
  | none => none
  | some [] => some (.fail (.inField operator (.emptyOperands operator)))
  | some (d :: ds) =>
    some (make <$> (OperandDocument.checkAll limit depth 0 (d :: ds)).within [.field operator])

/-- The operand of an operator over a single one, if there is one. -/
def OperandDocument.checkSingle? (limit depth : Nat) (operator : String)
    (make : Operand → Formula) : Option OperandDocument → Option (Checked Formula)
  | none => none
  | some d => some (make <$> (d.check limit depth).within [.field operator])

/-- The difference, if there is one. -/
def DifferenceDocument.check? (limit depth : Nat) :
    Option DifferenceDocument → Option (Checked Formula)
  | none => none
  | some ⟨minuend, subtrahend⟩ =>
    let difference := Formula.sub
      <$> OperandDocument.checkRequired limit depth "minuend" minuend
      <*> OperandDocument.checkRequired limit depth "subtrahend" subtrahend
    some (difference.within [.field "sub"])

/-- An operand that must be present. -/
def OperandDocument.checkRequired (limit depth : Nat) (field : String) :
    Option OperandDocument → Checked Operand
  | none => .fail (.inField field (.missingOperand field))
  | some d => (d.check limit depth).within [.field field]

/-- Operands whose places are counted from `index` on. -/
def OperandDocument.checkAll (limit depth index : Nat) :
    List OperandDocument → Checked (List Operand)
  | [] => .valid []
  | d :: rest =>
    List.cons <$> (d.check limit depth).within [.item index]
      <*> OperandDocument.checkAll limit depth (index + 1) rest

/-- The operand of a document. -/
def OperandDocument.check (limit depth : Nat) : OperandDocument → Checked Operand
  | ⟨meter, constant, formulaVariable, nested⟩ =>
    let alternatives := presentChecks
      [meter.map fun m => (Operand.meter <$> m.check).within [.field "meloOperand"],
        constant.map fun v => (Operand.constant <$>
          Checked.ofExcept Defect.malformed (ConstLiteral.ofJson v)).within [.field "const"],
        formulaVariable.map fun s => (Operand.variable <$>
          Checked.ofExcept Defect.malformed (Identifier.parse .formulaVariable s)).within
            [.field "formulaVar"],
        FormulaDocument.checkNested? limit depth nested]
    Checked.only alternatives
      (.here (.operandUnion (OperandDocument.variants ⟨meter, constant, formulaVariable, nested⟩)))

/-- The nested formula of an operand, if there is one. -/
def FormulaDocument.checkNested? (limit depth : Nat) :
    Option FormulaDocument → Option (Checked Operand)
  | none => none
  | some d =>
    some ((Operand.nested <$> d.check limit (depth + 1)).within [.field "calculationFormula"])

end

/-- The formula of a document, or all of its findings. -/
def FormulaDocument.validate (d : FormulaDocument) (maxDepth : Nat) : Checked Formula :=
  (d.check maxDepth 1).within [.field "calculationFormula"]

end EnergyFormula
