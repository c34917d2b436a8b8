import EnergyFormula.Document.Record
import EnergyFormula.Expression.Basic

/-!
# Expression documents

The interchange form of named-function expressions.  A parameter names its kind in the field `type`
and has the fields of that kind beside it.  `Expression.read` reads a document and
`Expression.write` writes one.
-/

namespace EnergyFormula

open Document

/-- The kinds of parameters. -/
inductive ParameterKind where
  | constant
  | series
  | literal
  | expression
  deriving DecidableEq

namespace ParameterKind

/-- Every kind. -/
def all : List ParameterKind :=
  [constant, series, literal, expression]

/-- The kind as it is named in documents. -/
def name : ParameterKind → String
  | constant => "constant"
  | series => "timeseries_ref"
  | literal => "string"
  | expression => "expression"

/-- The kind that a value names.  Inside of another expression a kind may also be given by its
number, counted from zero. -/
def read (inner : Bool) : Json → Decoded ParameterKind
  | .string s => (all.find? fun kind => kind.name = s).elim (.error .shape) .ok
  | .integer n =>
    if inner && 0 ≤ n then all[n.toNat]?.elim (.error .shape) .ok else .error .shape
  | _ => .error .shape

/-- A written kind is read back. -/
theorem read_name (inner : Bool) (kind : ParameterKind) :
    read inner (.string kind.name) = .ok kind := by
  cases kind <;> rfl

end ParameterKind

/-- The value of the one field with the key, or the first of a row of values, and what is left
beside it. -/
def takeTag {whole : Json} (key : String) : Source whole → Decoded (Part whole × Source whole)
  | .members ms =>
    match ms.filter fun m => m.1 = key with
    | [tag] => .ok (tag.2, .members (ms.filter fun m => m.1 ≠ key))
    | _ => .error .shape
  | .items (tag :: rest) => .ok (tag, .items rest)
  | .items [] => .error .shape

/-- The function that a value names. -/
def DomainFunction.read (v : Json) : Decoded DomainFunction :=
  (string v).map DomainFunction.ofName

mutual

/-- The expression that a value holds. -/
def Expression.read (inner : Bool) (v : Json) : Decoded Expression :=
  let fields : Record v Expression :=
    Expression.apply <$> .required ["function"] DomainFunction.read
      <*> .field ["parameters"] (some []) (fun row => do
        let items ← parts row.1
        items.mapM fun item => Parameter.read inner item.1)
  fields.read
termination_by sizeOf v
decreasing_by exact Nat.lt_trans item.2 row.2

/-- The parameter that a value holds. -/
def Parameter.read (inner : Bool) (v : Json) : Decoded Parameter := do
  let values ← source v
  let (tag, rest) ← takeTag "type" values
  let kind ← ParameterKind.read inner tag.1
  let fields : Record v Parameter :=
    match kind with
    | .constant => .constant <$> .required ["value"] flexible
    | .series =>
      .series <$> .required ["value", "name"] string <*> .defaulted ["scalingFactor"] 1 flexible
    | .literal => .literal <$> .required ["value"] string
    | .expression => .expression <$> .field ["value"] none fun part => Expression.read true part.1
  fields.readFrom rest
termination_by sizeOf v
decreasing_by exact part.2

end

/-- The function as it is written. -/
def DomainFunction.write (f : DomainFunction) : Json :=
  .string f.wireName

mutual

/-- The expression as it is written. -/
def Expression.write : Expression → Json
  | .apply f ps =>
    .object [("function", f.write), ("parameters", .array (Parameter.writeAll ps))]

/-- The parameter as it is written; a number that is not finite has no notation. -/
def Parameter.write : Parameter → Json
  | .constant x => .object [("type", .string "constant"), ("value", .ofFloat x)]
  | .series name factor =>
    .object [("type", .string "timeseries_ref"), ("value", .string name),
      ("scalingFactor", .ofFloat factor)]
  | .literal s => .object [("type", .string "string"), ("value", .string s)]
  | .expression e => .object [("type", .string "expression"), ("value", e.write)]

/-- Several parameters. -/
def Parameter.writeAll : List Parameter → List Json
  | [] => []
  | p :: rest => p.write :: Parameter.writeAll rest

end

end EnergyFormula
