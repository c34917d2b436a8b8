/-!
# Binary fractions

A finite number has a sign and a magnitude `mantissa · 2^exponent`.  `magnitude?` takes the two
apart, exactly; `Magnitude.rounded` is the nearest natural number, a half going up, and
`Magnitude.whole?` the natural number that the magnitude is, if it is one.
-/

namespace EnergyFormula.Number

/-- The number `mantissa · 2^exponent`. -/
structure Magnitude where
  mantissa : Nat
  exponent : Int
  deriving DecidableEq

/-- The magnitude as a quotient: the part above the line. -/
def Magnitude.numerator (m : Magnitude) : Nat :=
  m.mantissa * Nat.pow 2 m.exponent.toNat

/-- The magnitude as a quotient: the part below the line. -/
def Magnitude.denominator (m : Magnitude) : Nat :=
  Nat.pow 2 (-m.exponent).toNat

/-- `a / b`, rounded to the nearest natural number; a half goes up. -/
def roundedQuotient (a b : Nat) : Nat :=
  (2 * a + b) / (2 * b)

/-- The nearest natural number; a half goes up. -/
def Magnitude.rounded (m : Magnitude) : Nat :=
  roundedQuotient m.numerator m.denominator

/-- The natural number that the magnitude is, if it is one. -/
def Magnitude.whole? (m : Magnitude) : Option Nat :=
  if m.numerator % m.denominator = 0 then some (m.numerator / m.denominator) else none

/-- The sign bit is set: also of the negative zero. -/
def isNegative (x : Float) : Bool :=
  Nat.pow 2 63 ≤ x.toBits.toNat

/-- The lower 52 bits of the binary form. -/
def fractionBits (x : Float) : Nat :=
  x.toBits.toNat % Nat.pow 2 52

/-- The eleven bits of the binary form that hold the exponent. -/
def exponentBits (x : Float) : Nat :=
  x.toBits.toNat / Nat.pow 2 52 % Nat.pow 2 11

/-- The magnitude of a finite number, and `none` for infinities and what is no number. -/
def magnitude? (x : Float) : Option Magnitude :=
  if exponentBits x = 2047 then none
  else if exponentBits x = 0 then some ⟨fractionBits x, -1074⟩
  else some ⟨fractionBits x + Nat.pow 2 52, (exponentBits x : Int) - 1075⟩

/-- The number with the given sign and magnitude. -/
def withSign (negative : Bool) (x : Float) : Float :=
  if negative then -x else x

/-- A number rounded to the nearest whole number; a half goes away from zero. -/
def roundToWhole (x : Float) : Float :=
  match magnitude? x with
  | none => x
  | some m => withSign (isNegative x) (Float.ofNat m.rounded)

/-- The natural number that a float denotes, if it is one; the negative zero is zero. -/
def natural? (x : Float) : Option Nat :=
  match magnitude? x with
  | none => none
  | some m => if isNegative x && m.mantissa != 0 then none else m.whole?

/-- Twice the distance of a rounded quotient from the quotient is at most one. -/
theorem roundedQuotient_near (a b : Nat) (hb : 0 < b) :
    2 * a ≤ 2 * b * roundedQuotient a b + b ∧ 2 * b * roundedQuotient a b ≤ 2 * a + b := by
  have h := Nat.div_add_mod (2 * a + b) (2 * b)
  have hlt := Nat.mod_lt (2 * a + b) (show 0 < 2 * b by omega)
  unfold roundedQuotient
  omega

end EnergyFormula.Number
