import EnergyFormula.Identifier.Kind
import EnergyFormula.Identifier.Uuid

/-!
# Identifiers and literals

The types of well-formed identifiers and literals.  A value of such a type carries the proof that
its text or number is admitted, and a literal besides that its text and its number belong together;
`parse` is the way from a text to a value, and `Identifier.parse_text`, `Percent.ofNumber_value` say
that a value is found again.
-/

namespace EnergyFormula

/-- A text that its kind admits, kept as it was given. -/
structure Identifier (kind : IdentifierKind) where
  text : String
  admitted : kind.admits text = true
  deriving DecidableEq

/-- The id of a market location. -/
abbrev MarketLocationId := Identifier .marketLocationId

/-- The id of a meter location. -/
abbrev MeterLocationId := Identifier .meterLocationId

/-- The id of a network location. -/
abbrev NetworkLocationId := Identifier .networkLocationId

/-- The name of an input series in a formula. -/
abbrev FormulaVariable := Identifier .formulaVariable

/-- The identifier with a text. -/
def Identifier.parse (kind : IdentifierKind) (text : String) :
    Except MalformedIdentifier (Identifier kind) :=
  if h : kind.admits text = true then .ok ⟨text, h⟩ else .error ⟨kind, text⟩

/-- The text of an identifier is read back. -/
theorem Identifier.parse_text {kind : IdentifierKind} (id : Identifier kind) :
    Identifier.parse kind id.text = .ok id := by
  simp [Identifier.parse, id.admitted]

/-- An identifier is read exactly from its own text. -/
theorem Identifier.parse_eq_ok_iff {kind : IdentifierKind} {text : String}
    {id : Identifier kind} : Identifier.parse kind text = .ok id ↔ id.text = text := by
  constructor
  · intro h
    unfold Identifier.parse at h
    split at h
    · cases h; rfl
    · cases h
  · rintro rfl
    exact id.parse_text

/-- The id of a transaction.  Letter case does not count. -/
structure TransactionId where
  uuid : Uuid
  deriving DecidableEq

/-- The id as a text, in lower case. -/
def TransactionId.text (id : TransactionId) : String :=
  id.uuid.text

/-- The transaction id that a text denotes. -/
def TransactionId.parse (text : String) : Except MalformedIdentifier TransactionId :=
  if IdentifierKind.transactionId.admits text then
    match Uuid.parse? text.toList with
    | some uuid => .ok ⟨uuid⟩
    | none => .error ⟨.transactionId, text⟩
  else .error ⟨.transactionId, text⟩

/-- A finite number from 0 to 1. -/
def Percent.admits (x : Float) : Bool :=
  x.isFinite && (0 ≤ x && x ≤ 1)

/-- A share: a number from 0 to 1. -/
structure Percent where
  value : Float
  inRange : Percent.admits value = true

instance : BEq Percent :=
  ⟨fun a b => a.value == b.value⟩

namespace Percent

/-- No share. -/
def zero : Percent :=
  ⟨0, by decide⟩

/-- The whole. -/
def one : Percent :=
  ⟨1, by decide⟩

/-- The share that a number is. -/
def ofNumber (x : Float) : Except MalformedIdentifier Percent :=
  if h : admits x = true then .ok ⟨x, h⟩ else .error ⟨.percentValue, Number.plain x⟩

/-- The share that a text denotes. -/
def parse (text : String) : Except MalformedIdentifier Percent :=
  if IdentifierKind.percentValue.admits text then
    match Number.read? text with
    | some x => ofNumber x
    | none => .error ⟨.percentValue, text⟩
  else .error ⟨.percentValue, text⟩

/-- The number of a share is a share. -/
theorem ofNumber_value (p : Percent) : ofNumber p.value = .ok p := by
  simp [ofNumber, p.inRange]

theorem value_mem_unit (p : Percent) : 0 ≤ p.value ∧ p.value ≤ 1 := by
  have h := p.inRange
  simp only [admits, Bool.and_eq_true, decide_eq_true_eq] at h
  exact h.2

end Percent

/-- A decimal literal: its text as it was given, and the finite number it denotes. -/
structure ConstLiteral where
  text : String
  value : Float
  admitted : IdentifierKind.constLiteral.admits text = true
  finite : value.isFinite = true
  /-- The number is read from the text, or the text is written for the number. -/
  denotes : Number.read? text = some value ∨ text = Number.plain value

instance : BEq ConstLiteral :=
  ⟨fun a b => a.text == b.text && a.value == b.value⟩

namespace ConstLiteral

/-- The literal of a finite number, with the fewest digits that read back. -/
def ofNumber (x : Float) : Except MalformedIdentifier ConstLiteral :=
  let text := Number.plain x
  if hx : x.isFinite = true then
    if ht : IdentifierKind.constLiteral.admits text = true then .ok ⟨text, x, ht, hx, .inr rfl⟩
    else .error ⟨.constLiteral, text⟩
  else .error ⟨.constLiteral, text⟩

/-- The literal with a text.  A decimal too large for a finite number is refused. -/
def parse (text : String) : Except MalformedIdentifier ConstLiteral :=
  if ht : IdentifierKind.constLiteral.admits text = true then
    match hread : Number.read? text with
    | some x =>
      if hx : x.isFinite = true then .ok ⟨text, x, ht, hx, .inl hread⟩
      else .error ⟨.constLiteral, text⟩
    | none => .error ⟨.constLiteral, text⟩
  else .error ⟨.constLiteral, text⟩

end ConstLiteral

/-- A value of one of the seven kinds. -/
inductive TypedValue where
  | marketLocation (id : MarketLocationId)
  | meterLocation (id : MeterLocationId)
  | networkLocation (id : NetworkLocationId)
  | transaction (id : TransactionId)
  | percent (p : Percent)
  | constant (c : ConstLiteral)
  | variable (v : FormulaVariable)

/-- The value of a kind that a text denotes. -/
def TypedValue.parse (kind : IdentifierKind) (text : String) :
    Except MalformedIdentifier TypedValue :=
  match kind with
  | .marketLocationId => (Identifier.parse .marketLocationId text).map .marketLocation
  | .meterLocationId => (Identifier.parse .meterLocationId text).map .meterLocation
  | .networkLocationId => (Identifier.parse .networkLocationId text).map .networkLocation
  | .transactionId => (TransactionId.parse text).map .transaction
  | .percentValue => (Percent.parse text).map .percent
  | .constLiteral => (ConstLiteral.parse text).map .constant
  | .formulaVariable => (Identifier.parse .formulaVariable text).map .variable

end EnergyFormula
