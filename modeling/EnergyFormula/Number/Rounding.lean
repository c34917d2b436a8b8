import EnergyFormula.Number.Text

/-!
# Rounding to decimal places

`roundHalfAway` rounds a number to a count of decimal places, on the decimal that `plain` writes
and not on the binary fraction: 2.675 to two places is 2.68.  The decimals on the way, `Scaled`,
hold integers below `2^96` with at most 28 places; a number beyond them is left as it is.
-/

namespace EnergyFormula.Number

open Text

/-- The number `coefficient / 10^places`. -/
structure Scaled where
  coefficient : Nat
  places : Nat
  deriving DecidableEq

/-- Greatest integer that a scaled decimal may hold. -/
def Scaled.limit : Nat :=
  Nat.pow 2 96 - 1

/-- Most places that a scaled decimal may have. -/
def Scaled.maxPlaces : Nat :=
  28

/-- The decimal on fewer places, a half going up; on as many or more places it stays as it is. -/
def Scaled.toPlaces (s : Scaled) (places : Nat) : Scaled :=
  if places < s.places then
    ⟨roundedQuotient s.coefficient (Nat.pow 10 (s.places - places)), places⟩
  else s

/-- A decimal as a scaled one, on at most 28 places; none beyond `2^96 - 1`. -/
def Decimal.scaled? (d : Decimal) : Option Scaled :=
  match d.exponent with
  | .ofNat zeros =>
    let n := d.coefficient * Nat.pow 10 zeros
    if Scaled.limit < n then none else some ⟨n, 0⟩
  | .negSucc n => some (Scaled.toPlaces ⟨d.coefficient, n + 1⟩ Scaled.maxPlaces)

/-- `r · a^n`, the product formed by squaring `a` from the lowest binary digit of `n` upwards. -/
def powerBySquaring (n : Nat) (r a : Float) : Float :=
  let r := if n % 2 = 1 then r * a else r
  if _h : n / 2 = 0 then r else powerBySquaring (n / 2) r (a * a)
termination_by n
decreasing_by omega

/-- The float of a scaled decimal: whole part and fraction are converted apart, and their sum is
taken once more to the given number of places. -/
def Scaled.toFloat (s : Scaled) : Float :=
  if s.places = 0 then Float.ofNat s.coefficient
  else
    let unit := Nat.pow 10 s.places
    let whole := Float.ofNat (s.coefficient / unit)
    let fraction := Float.ofNat (s.coefficient % unit) / Float.ofNat unit
    if fraction == 0 then whole
    else
      let power := powerBySquaring s.places 1 10
      roundToWhole ((whole + fraction) * power) / power

/-- A number rounded to `places` decimal places, a half going away from zero; zero loses its
sign. -/
def roundHalfAway (x : Float) (places : Nat) : Float :=
  match magnitude? x with
  | none => x
  | some m =>
    match (shortest .up m).scaled? with
    | none => x
    | some s =>
      let rounded := s.toPlaces places
      if rounded.coefficient = 0 then 0 else withSign (isNegative x) rounded.toFloat

/-- Rounding is the identity on what is not finite. -/
theorem roundHalfAway_of_not_finite {x : Float} (h : magnitude? x = none) (places : Nat) :
    roundHalfAway x places = x := by
  simp [roundHalfAway, h]

/-- A decimal that has no more places than asked for is kept. -/
theorem Scaled.toPlaces_of_le {s : Scaled} {places : Nat} (h : s.places ≤ places) :
    s.toPlaces places = s := by
  simp [Scaled.toPlaces, Nat.not_lt.2 h]

/-- A rounded decimal has no more places than asked for. -/
theorem Scaled.places_toPlaces_le (s : Scaled) (places : Nat) :
    (s.toPlaces places).places ≤ places := by
  unfold Scaled.toPlaces
  split
  · exact Nat.le_refl _
  · omega

end EnergyFormula.Number
