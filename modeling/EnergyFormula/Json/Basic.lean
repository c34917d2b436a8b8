import EnergyFormula.Number.Text

/-!
# JSON values

Integers and floats are different values: `5` is an integer, `5.0` and `1e3` are floats.  The
members of an object stand in the order in which they were written and may repeat a key; the
canonical form (`Json.canonical`) has them sorted by key, the last of several equal keys winning.
-/

namespace EnergyFormula

/-- A JSON value. -/
inductive Json where
  | null
  | boolean (b : Bool)
  | integer (n : Int)
  | float (x : Float)
  | string (s : String)
  | array (items : List Json)
  | object (members : List (String × Json))

namespace Json

/-- Integers from `-2^63` to `2^64 - 1` are kept exactly; beyond them a number is a float. -/
def isExactInteger (n : Int) : Bool :=
  -(Nat.pow 2 63 : Int) ≤ n && n ≤ (Nat.pow 2 64 : Int) - 1

/-- A float as a JSON value; what is not finite has no notation and is `null`. -/
def ofFloat (x : Float) : Json :=
  if x.isFinite then .float x else .null

/-- The number that a JSON number denotes, as a float. -/
def toFloat? : Json → Option Float
  | .integer n => some (Number.withSign (n < 0) (Float.ofNat n.natAbs))
  | .float x => some x
  | _ => none

/-- The text of a JSON string. -/
def toText? : Json → Option String
  | .string s => some s
  | _ => none

/-- Puts a member into a list of members sorted by key, in place of an equal key. -/
def insertMember {α : Type} (key : String) (value : α) :
    List (String × α) → List (String × α)
  | [] => [(key, value)]
  | (k, v) :: rest =>
    if key < k then (key, value) :: (k, v) :: rest
    else if k = key then (key, value) :: rest
    else (k, v) :: insertMember key value rest

/-- The members sorted by key; of equal keys the last one stays. -/
def sortMembers {α : Type} (members : List (String × α)) : List (String × α) :=
  members.foldl (fun sorted m => insertMember m.1 m.2 sorted) []

mutual

/-- The same value with the members of every object sorted by key and no key repeated. -/
def canonical : Json → Json
  | .array items => .array (canonicalItems items)
  | .object members => .object (sortMembers (canonicalMembers members))
  | .null => .null
  | .boolean b => .boolean b
  | .integer n => .integer n
  | .float x => .float x
  | .string s => .string s

/-- `canonical` on every item. -/
def canonicalItems : List Json → List Json
  | [] => []
  | v :: rest => canonical v :: canonicalItems rest

/-- `canonical` on the value of every member. -/
def canonicalMembers : List (String × Json) → List (String × Json)
  | [] => []
  | (k, v) :: rest => (k, canonical v) :: canonicalMembers rest

end

/-- The value of a key; the first of several. -/
def member? (key : String) (members : List (String × Json)) : Option Json :=
  members.lookup key

end Json

end EnergyFormula
