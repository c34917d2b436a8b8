import EnergyFormula.Json.Basic

/-!
# Numbers in JSON

`number?` is the value of the characters of one number.  An integer in range is exact.  Any other
number is a float: `leading` keeps as many of its digits as stay below `2^64`, and `scaled?` brings
them to their size with one power of ten.  Up to fifteen digits and twenty-two places that is the
nearest float; for longer numbers the last bit may differ from it.  A float beyond the finite range
is refused.
-/

namespace EnergyFormula.Json

open Text Number

/-- A character that may occur in a number. -/
def isNumberChar (c : Char) : Bool :=
  isDigit c || c = '+' || c = '-' || c = '.' || c = 'e' || c = 'E'

/-- The digits before the point: no superfluous leading zero. -/
def isWholePart : List Char → Bool
  | [] => false
  | ['0'] => true
  | c :: _ => c ≠ '0'

/-- Appends digits to a coefficient as long as it stays below `2^64`; with the coefficient goes the
count of digits that were left over. -/
def appendDigits (coefficient : Nat) : List Char → Nat × Nat
  | [] => (coefficient, 0)
  | c :: rest =>
    let extended := 10 * coefficient + digitsValue [c]
    if extended < Nat.pow 2 64 then appendDigits extended rest else (coefficient, rest.length + 1)

/-- The leading digits of a number with the power of ten that belongs to them.  Digits left over
before the point raise the exponent, digits taken behind it lower it. -/
def leading (whole fraction : List Char) (exponent : Int) : Decimal :=
  let (coefficient, above) := appendDigits 0 whole
  let (coefficient, below) := appendDigits coefficient fraction
  ⟨coefficient, exponent + above - (fraction.length - below : Nat)⟩

/-- Greatest exponent of a power of ten that is a finite float. -/
def maxPower : Nat :=
  308

/-- The float `10^n`, for `n` up to `maxPower`. -/
def powerOfTen (n : Nat) : Float :=
  Float.ofScientific 1 false n

/-- A float divided by `10^n`, in as many steps as there are powers of ten needed; after three steps
nothing is left of it. -/
def dividedByPower (x : Float) (n : Nat) : Float :=
  if n ≤ maxPower then x / powerOfTen n
  else
    let y := x / powerOfTen maxPower
    let rest := n - maxPower
    if rest ≤ maxPower then y / powerOfTen rest else 0

/-- The float of a decimal whose coefficient is below `2^64`; none beyond the finite range. -/
def scaled? (d : Decimal) : Option Float :=
  let x := Float.ofNat d.coefficient
  match d.exponent with
  | .negSucc n => some (dividedByPower x (n + 1))
  | .ofNat n =>
    if d.coefficient = 0 then some 0
    else if n ≤ maxPower then
      let y := x * powerOfTen n
      if y.isFinite then some y else none
    else none

/-- A number without its sign: digits, optionally a point and digits, optionally an exponent.  The
flag says that it has no point and no exponent. -/
def unsignedNumber? (s : List Char) : Option (Bool × Decimal) :=
  let (whole, rest) := spanDigits s
  if isWholePart whole then
    match rest with
    | [] => some (true, leading whole [] 0)
    | '.' :: r =>
      let (fraction, rest) := spanDigits r
      if fraction = [] then none
      else (readExponent? rest).map fun e => (false, leading whole fraction e)
    | r => (readExponent? r).map fun e => (false, leading whole [] e)
  else none

/-- The value of a number.  A negative zero without a point is a float, as is an integer out of
range. -/
def number? (s : List Char) : Option Json :=
  let (negative, rest) := match s with
    | '-' :: r => (true, r)
    | r => (false, r)
  match unsignedNumber? rest with
  | none => none
  | some (isInteger, d) =>
    let n : Int := if negative then -d.coefficient else d.coefficient
    if isInteger && d.exponent = 0 && isExactInteger n && !(negative && d.coefficient = 0) then
      some (.integer n)
    else (scaled? d).map fun x => .float (withSign negative x)

end EnergyFormula.Json
