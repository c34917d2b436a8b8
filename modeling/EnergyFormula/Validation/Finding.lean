import EnergyFormula.Identifier.Kind
import EnergyFormula.Location.Basic
import EnergyFormula.Time.Reader

/-!
# Findings of a validation

A `Finding` is a defect of a document and the place it was found at.  Places are paths of field
names and indices; they are written like `timeSlice[0].calculationFormula.add[1].meloOperand`.
-/

namespace EnergyFormula

/-- One step of a path into a document. -/
inductive PathStep where
  | field (name : String)
  | item (index : Nat)
  deriving DecidableEq

/-- The way from the root of a document to a place in it. -/
abbrev Path := List PathStep

/-- A path behind the text of its first steps. -/
def Path.textAfter (before : String) : Path → String
  | [] => before
  | .field name :: rest =>
    Path.textAfter (if before.isEmpty then name else before ++ "." ++ name) rest
  | .item index :: rest => Path.textAfter (before ++ "[" ++ toString index ++ "]") rest

/-- The path as it is written. -/
def Path.text (p : Path) : String :=
  Path.textAfter "" p

/-- What can be wrong with a document. -/
inductive Defect where
  /-- A formula that is nested deeper than the limit. -/
  | depthExceeded (limit : Nat)
  /-- A formula without exactly one operator, and the operators it has. -/
  | formulaUnion (present : List String)
  /-- An operand without exactly one variant, and the variants it has. -/
  | operandUnion (present : List String)
  | emptyOperands (operator : String)
  | missingOperand (field : String)
  | missingFormula
  | missingIdentifier (field : String)
  | missingTimestamp (field : String)
  | unknownQuality (text : String)
  | unknownDirection (text : String)
  | malformed (e : MalformedIdentifier)
  | timestamp (e : MalformedTimestamp)
  | location (d : LocationDefect)
  /-- A slice with the id of an earlier one. -/
  | duplicateSlice (id : Int)

namespace Defect

/-- Names in quotes, as a bracketed list. -/
def nameList (names : List String) : String :=
  "[" ++ ", ".intercalate (names.map fun name => "\"" ++ name ++ "\"") ++ "]"

/-- How many of the alternatives are present, and which. -/
def presence (alternatives : String) (present : List String) : String :=
  "Exactly one of " ++ alternatives ++ " must be set; found " ++ toString present.length ++ " " ++
    nameList present

/-- The defect in words. -/
def message : Defect → String
  | depthExceeded limit => "Formula nesting exceeds the limit of " ++ toString limit
  | formulaUnion present => presence "add, sub, mul, div, pos, operand" present
  | operandUnion present => presence "meloOperand, const, formulaVar, calculationFormula" present
  | emptyOperands operator => "'" ++ operator ++ "' requires at least one operand"
  | missingOperand field => field ++ " is required"
  | missingFormula => "calculationFormula is required"
  | missingIdentifier field => field ++ " is required"
  | missingTimestamp field => field ++ " is required"
  | unknownQuality text => "Unknown time slice quality '" ++ text ++ "'"
  | unknownDirection text => "Unknown energy direction '" ++ text ++ "'"
  | malformed e => Reportable.message e
  | timestamp e => Reportable.message e
  | location d => Reportable.message d
  | duplicateSlice id => "Duplicate timeSliceId " ++ toString id

/-- The code of the defect. -/
def code : Defect → ErrorCode
  | depthExceeded _ => .depthLimitExceeded
  | formulaUnion _ => .invalidCalculationFormulaUnion
  | operandUnion _ => .invalidOperandUnion
  | emptyOperands _ => .emptyOperandList
  | missingOperand _ => .invalidOperandUnion
  | missingFormula => .invalidCalculationFormulaUnion
  | missingIdentifier _ => .malformedIdentifier
  | missingTimestamp _ => .malformedTimestamp
  | unknownQuality _ => .malformedIdentifier
  | unknownDirection _ => .malformedIdentifier
  | malformed e => Reportable.code e
  | timestamp e => Reportable.code e
  | location d => Reportable.code d
  | duplicateSlice _ => .malformedIdentifier

end Defect

/-- A defect and the place it was found at. -/
structure Finding where
  path : Path
  defect : Defect

namespace Finding

/-- A defect of the document as a whole. -/
def here (defect : Defect) : Finding :=
  ⟨[], defect⟩

/-- A defect in a field. -/
def inField (field : String) (defect : Defect) : Finding :=
  ⟨[.field field], defect⟩

/-- The finding, seen from an enclosing document. -/
def within (steps : Path) (f : Finding) : Finding :=
  ⟨steps ++ f.path, f.defect⟩

/-- The finding as a reported problem; one of the whole document has no path. -/
def info (f : Finding) : ErrorInfo :=
  ⟨f.defect.code, f.defect.message, if f.path.isEmpty then none else some (Path.text f.path)⟩

end Finding

end EnergyFormula
