import EnergyFormula.Document.Record
import EnergyFormula.Formula.Basic
import EnergyFormula.Location.Basic

/-!
# Documents of identifiers and literals

The interchange form of identifiers, shares, constants and the names that stand in documents.
-/

namespace EnergyFormula

open Document

/-- The identifier that a value holds. -/
def Identifier.read (kind : IdentifierKind) (v : Json) : Decoded (Identifier kind) := do
  let s ← string v
  (Identifier.parse kind s).mapError .identifier

/-- The identifier as it is written. -/
def Identifier.write {kind : IdentifierKind} (id : Identifier kind) : Json :=
  .string id.text

/-- The transaction id that a value holds. -/
def TransactionId.read (v : Json) : Decoded TransactionId := do
  let s ← string v
  (TransactionId.parse s).mapError .identifier

/-- The transaction id as it is written. -/
def TransactionId.write (id : TransactionId) : Json :=
  .string id.text

/-- The share that a JSON number is. -/
def Percent.read (v : Json) : Decoded Percent := do
  let x ← number v
  (Percent.ofNumber x).mapError .identifier

/-- The share as it is written. -/
def Percent.write (p : Percent) : Json :=
  .float p.value

/-- The constant that a text is. -/
def ConstLiteral.read (v : Json) : Decoded ConstLiteral := do
  let s ← string v
  (ConstLiteral.parse s).mapError .identifier

/-- The constant as it is written. -/
def ConstLiteral.write (c : ConstLiteral) : Json :=
  .string c.text

/-- The kind with a name. -/
def IdentifierKind.ofName? (s : String) : Option IdentifierKind :=
  all.find? fun kind => kind.wireName = s

/-- A named kind is read back. -/
theorem IdentifierKind.ofName?_wireName (kind : IdentifierKind) :
    IdentifierKind.ofName? kind.wireName = some kind := by
  cases kind <;> decide

/-- The direction with exactly that name. -/
def EnergyDirection.ofName? : String → Option EnergyDirection
  | "consumption" => some .consumption
  | "production" => some .production
  | _ => none

/-- A named direction is read back. -/
theorem EnergyDirection.ofName?_text (d : EnergyDirection) :
    EnergyDirection.ofName? d.text = some d := by
  cases d <;> rfl

end EnergyFormula
