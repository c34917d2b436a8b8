import EnergyFormula.Identifier.Typed
import EnergyFormula.Time.Reader
import EnergyFormula.Time.Resolution
import EnergyFormula.Json.Basic

/-!
# Reading records

Documents are read from JSON values.  A `Record` describes the fields of an object: which keys a
field goes by, how its value is read and what an absent field means.  A field that is given twice
and an absent one without a default are faults; unknown keys are passed over.  An array is read like
an object whose values stand in the order of the fields.  Of several faults the one that comes first
in the document counts, so a record is an applicative functor and not a monad: every field is read,
and then the fault with the least place is taken.
-/

namespace EnergyFormula

/-- Why a document is refused. -/
inductive Refusal where
  /-- A value of another shape, an absent or repeated field, an unknown name. -/
  | shape
  | identifier (e : MalformedIdentifier)
  | resolution (e : InvalidResolution)
  | notFinite (value : Float)
  | notNumeric (text : String)

/-- The refusal in words.  A wrong shape has none of its own. -/
def Refusal.message? : Refusal → Option String
  | shape => none
  | identifier e => some e.message
  | resolution e => some e.message
  | notFinite value => some ("non-finite number: " ++ Number.plain value)
  | notNumeric text => some ("invalid number: '" ++ text ++ "'")

/-- What reading a document comes to. -/
abbrev Decoded (α : Type) := Except Refusal α

namespace Document

/-- A value that stands inside another one. -/
abbrev Part (whole : Json) := { v : Json // sizeOf v < sizeOf whole }

/-- The items of an array stand inside it. -/
theorem sizeOf_item_lt {items : List Json} {v : Json} (h : v ∈ items) :
    sizeOf v < sizeOf (Json.array items) := by
  have := List.sizeOf_lt_of_mem h
  simp only [Json.array.sizeOf_spec]
  omega

/-- The values of an object stand inside it. -/
theorem sizeOf_member_lt {members : List (String × Json)} {m : String × Json} (h : m ∈ members) :
    sizeOf m.2 < sizeOf (Json.object members) := by
  have := List.sizeOf_lt_of_mem h
  obtain ⟨k, v⟩ := m
  simp only [Json.object.sizeOf_spec, Prod.mk.sizeOf_spec] at *
  omega

/-- The items of an array. -/
def itemParts (items : List Json) : List (Part (.array items)) :=
  items.attach.map fun v => ⟨v.1, sizeOf_item_lt v.2⟩

/-- The members of an object. -/
def memberParts (members : List (String × Json)) : List (String × Part (.object members)) :=
  members.attach.map fun m => (m.1.1, ⟨m.1.2, sizeOf_member_lt m.2⟩)

/-- The items of a value, which must be an array. -/
def parts : (v : Json) → Decoded (List (Part v))
  | .array items => .ok (itemParts items)
  | _ => .error .shape

/-- What a record is read from: values by key, or values in the order of the fields. -/
inductive Source (whole : Json) where
  | members (ms : List (String × Part whole))
  | items (vs : List (Part whole))

/-- The source that a value is; only objects and arrays are any. -/
def source : (v : Json) → Decoded (Source v)
  | .object members => .ok (.members (memberParts members))
  | .array items => .ok (.items (itemParts items))
  | _ => .error .shape

/-- A refusal and the place in the document that it belongs to. -/
structure Fault where
  place : Nat
  refusal : Refusal

/-- The fields of an object: their keys in order, and how they are read. -/
structure Record (whole : Json) (α : Type) where
  keys : List String
  run : List (String × Part whole) → Except Fault α

/-- A function and its argument, or the fault that comes first. -/
def applyFields {α β : Type} : Except Fault (α → β) → Except Fault α → Except Fault β
  | .ok f, .ok a => .ok (f a)
  | .ok _, .error e => .error e
  | .error e, .ok _ => .error e
  | .error e, .error e' => .error (if e'.place < e.place then e' else e)

instance (whole : Json) : Applicative (Record whole) where
  pure a := ⟨[], fun _ => .ok a⟩
  seq f x :=
    ⟨f.keys ++ (x ()).keys, fun members => applyFields (f.run members) ((x ()).run members)⟩

namespace Record

variable {whole : Json} {α : Type}

/-- The record read from a source.  A row of values may be shorter than the row of fields but not
longer. -/
def readFrom (r : Record whole α) : Source whole → Decoded α
  | .members ms => (r.run ms).mapError Fault.refusal
  | .items vs =>
    match r.run (r.keys.zip vs) with
    | .error fault => .error fault.refusal
    | .ok a => if r.keys.length < vs.length then .error .shape else .ok a

/-- The record that a value holds. -/
def read (r : Record whole α) : Decoded α := do
  let values ← source whole
  r.readFrom values

/-- The values of a field that goes by several keys, with their places. -/
def occurrences (keys : List String) (members : List (String × Part whole)) :
    List (Nat × Part whole) :=
  (members.zipIdx.filter fun m => keys.contains m.1.1).map fun m => (m.2, m.1.2)

/-- A field that is read from a part of the document; `absent` is its value where it is absent.
A second value for it is a fault at the place of that value. -/
def field (keys : List String) (absent : Option α) (read : Part whole → Decoded α) :
    Record whole α where
  keys := keys.take 1
  run members :=
    match occurrences keys members with
    | [] =>
      match absent with
      | some a => .ok a
      | none => .error ⟨members.length, .shape⟩
    | (place, part) :: more =>
      match read part with
      | .error refusal => .error ⟨place, refusal⟩
      | .ok a =>
        match more with
        | [] => .ok a
        | (again, _) :: _ => .error ⟨again, .shape⟩

/-- A field that must be present. -/
def required (keys : List String) (read : Json → Decoded α) : Record whole α :=
  field keys none fun part => read part.1

/-- A field with a value for its absence. -/
def defaulted (keys : List String) (absent : α) (read : Json → Decoded α) : Record whole α :=
  field keys (some absent) fun part => read part.1

/-- A field that may be absent or `null`, read from a part of the document. -/
def optionalPart (keys : List String) (read : Part whole → Decoded α) :
    Record whole (Option α) :=
  field keys (some none) fun part =>
    match part.1 with
    | .null => .ok none
    | _ => (read part).map some

/-- A field that may be absent or `null`. -/
def optional (keys : List String) (read : Json → Decoded α) : Record whole (Option α) :=
  optionalPart keys fun part => read part.1

end Record

/-! ### Values -/

/-- A text. -/
def string : Json → Decoded String
  | .string s => .ok s
  | _ => .error .shape

/-- A truth value. -/
def boolean : Json → Decoded Bool
  | .boolean b => .ok b
  | _ => .error .shape

/-- An integer from `least` to `greatest`; a float is none, even if it is whole. -/
def integerWithin (least greatest : Int) : Json → Decoded Int
  | .integer n => if least ≤ n ∧ n ≤ greatest then .ok n else .error .shape
  | _ => .error .shape

/-- An integer of 64 bits. -/
def integer : Json → Decoded Int :=
  integerWithin (-(Nat.pow 2 63 : Int)) ((Nat.pow 2 63 : Int) - 1)

/-- A natural number below `2^bits`. -/
def natural (bits : Nat) (v : Json) : Decoded Nat :=
  (integerWithin 0 ((Nat.pow 2 bits : Int) - 1) v).map Int.toNat

/-- A JSON number. -/
def number (v : Json) : Decoded Float :=
  v.toFloat?.elim (.error .shape) .ok

/-- Any value. -/
def anything (v : Json) : Decoded Json :=
  .ok v.canonical

/-- A value that is told by its name; an object that has the name as its only key and `null` as its
value counts as the name. -/
def named {α : Type} (ofName? : String → Option α) : Json → Decoded α
  | .string s => (ofName? s).elim (.error .shape) .ok
  | .object [(s, .null)] => (ofName? s).elim (.error .shape) .ok
  | _ => .error .shape

/-- A list of values. -/
def list {α : Type} (read : Json → Decoded α) (v : Json) : Decoded (List α) := do
  let items ← parts v
  items.mapM fun part => read part.1

/-- Values by key, sorted by key; of equal keys the last one counts. -/
def dictionary {α : Type} (read : Json → Decoded α) : Json → Decoded (List (String × α))
  | .object members => do
    let values ← members.mapM fun (key, v) => do
      let value ← read v
      return (key, value)
    return Json.sortMembers values
  | _ => .error .shape

/-- A number must be finite. -/
def finite (x : Float) : Decoded Float :=
  if x.isFinite then .ok x else .error (.notFinite x)

/-- A number that is given as a JSON number or as text, blanks around it aside. -/
def flexible : Json → Decoded Float
  | .string s =>
    match Number.readTrimmed? s with
    | some x => finite x
    | none => .error (.notNumeric s)
  | v => (number v).bind finite

/-- Like `flexible`, but a blank text is no number at all. -/
def flexibleOptional : Json → Decoded (Option Float)
  | .string s => if (Text.trim s.toList).isEmpty then .ok none else (flexible (.string s)).map some
  | .null => .ok none
  | v => (flexible v).map some

/-- An instant, in the relaxed notation. -/
def instant : Json → Decoded Instant
  | .string s => (Instant.parseRelaxed? s).elim (.error .shape) .ok
  | _ => .error .shape

/-- A resolution. -/
def resolution : Json → Decoded Resolution
  | .string s => (Resolution.parse s).mapError .resolution
  | _ => .error .shape

/-! ### Writing -/

/-- An object of the fields that have a value. -/
def object (fields : List (String × Option Json)) : Json :=
  .object (fields.filterMap fun (key, value) => value.map fun v => (key, v))

/-- An array of written values. -/
def array {α : Type} (write : α → Json) (values : List α) : Json :=
  .array (values.map write)

/-- An instant as it is written. -/
def ofInstant (t : Instant) : Json :=
  .string t.documentText

end Document

end EnergyFormula
