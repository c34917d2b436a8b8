import EnergyFormula.Number.Shortest
import EnergyFormula.Text.Blank
import EnergyFormula.Text.Digits

/-!
# The text of a number

`plain` writes a number with the fewest digits that read back and without an exponent; quantities,
factors and literals are written so.  `literal` is the form that numbers have in documents: at least
one digit after the point, and an exponent for the very large and the very small.  `read?` reads
the decimal notation with optional sign, point and exponent, and the words for infinity and for
what is no number.
-/

namespace EnergyFormula.Number

open Text

/-- `coefficient · 10^exponent` without an exponent: a point only where there is a fraction. -/
def Decimal.positional (d : Decimal) : List Char :=
  let digits := natural d.coefficient
  match d.exponent with
  | .ofNat zeros => if d.coefficient = 0 then digits else digits ++ List.replicate zeros '0'
  | .negSucc n =>
    let places := n + 1
    let filled := List.replicate (places + 1 - digits.length) '0' ++ digits
    filled.take (filled.length - places) ++ '.' :: filled.drop (filled.length - places)

/-- `d.ddd` times a power of ten, the sign of the exponent always written. -/
def Decimal.scientific (d : Decimal) : List Char :=
  let digits := natural d.coefficient
  let exponent : Int := d.exponent + digits.length - 1
  let fraction := if digits.length = 1 then [] else '.' :: digits.drop 1
  let sign := if exponent < 0 then '-' else '+'
  digits.take 1 ++ fraction ++ 'e' :: sign :: natural exponent.natAbs

/-- The sign that is written before a number. -/
def signText (x : Float) : List Char :=
  if isNegative x then ['-'] else []

/-- The text of a number that is not finite. -/
def nonFiniteText (x : Float) : List Char :=
  if x.isNaN then ['N', 'a', 'N'] else signText x ++ ['i', 'n', 'f']

/-- The fewest digits that read back, never with an exponent; a tie goes up. -/
def plainChars (x : Float) : List Char :=
  match magnitude? x with
  | none => nonFiniteText x
  | some m => signText x ++ (shortest .up m).positional

/-- `plainChars` as a string. -/
def plain (x : Float) : String :=
  String.ofList (plainChars x)

/-- Numbers from `10^-5` up to but not including `10^16` are written without an exponent. -/
def Decimal.isModerate (d : Decimal) : Bool :=
  let leading : Int := d.exponent + (natural d.coefficient).length - 1
  d.coefficient = 0 || (-5 ≤ leading && leading < 16)

/-- A number as it stands in a document: the fewest digits that read back, a tie going to the even
digit, with a point or an exponent in every case. -/
def literal (x : Float) : String :=
  match magnitude? x with
  | none => String.ofList (nonFiniteText x)
  | some m =>
    let d := shortest .toEven m
    let digits :=
      if d.isModerate then
        if 0 ≤ d.exponent then d.positional ++ ['.', '0'] else d.positional
      else d.scientific
    String.ofList (signText x ++ digits)

/-- Positive infinity. -/
def infinity : Float :=
  1 / 0

/-- What is no number. -/
def notANumber : Float :=
  0 / 0

/-- The number nearest to a decimal.  A decimal with its leading digit beyond `10^310` is infinite,
one before `10^-340` is zero, so no large power of ten is ever computed. -/
def Decimal.toFloat (d : Decimal) : Float :=
  let leading : Int := d.exponent + (natural d.coefficient).length
  if d.coefficient = 0 then 0
  else if 310 < leading then infinity
  else if leading < -340 then 0
  else Float.ofScientific d.coefficient (d.exponent < 0) d.exponent.natAbs

/-- The sign before a number, and the rest of its text. -/
def splitSign : List Char → Bool × List Char
  | '-' :: r => (true, r)
  | '+' :: r => (false, r)
  | r => (false, r)

/-- The digits after a point, and what follows them. -/
def splitFraction : List Char → List Char × List Char
  | '.' :: r => spanDigits r
  | r => ([], r)

/-- The exponent at the end of a number; a number may end without one. -/
def readExponent? : List Char → Option Int
  | [] => some 0
  | e :: r =>
    if e = 'e' || e = 'E' then
      let (negative, digits) := splitSign r
      if digits ≠ [] ∧ digits.all isDigit then
        let n : Int := digitsValue digits
        some (if negative then -n else n)
      else none
    else none

/-- Digits with an optional point, at least one digit on either side of it, and an optional
exponent. -/
def readDecimal? (s : List Char) : Option Decimal :=
  let (whole, rest) := spanDigits s
  let (fraction, rest) := splitFraction rest
  if whole = [] ∧ fraction = [] then none
  else (readExponent? rest).map fun e => ⟨digitsValue (whole ++ fraction), e - fraction.length⟩

/-- The number that a text without a sign denotes. -/
def readUnsigned? (s : List Char) : Option Float :=
  match readDecimal? s with
  | some d => some d.toFloat
  | none =>
    match s.map Char.toLower with
    | ['i', 'n', 'f'] => some infinity
    | ['i', 'n', 'f', 'i', 'n', 'i', 't', 'y'] => some infinity
    | ['n', 'a', 'n'] => some notANumber
    | _ => none

/-- The number that a text denotes: a decimal, an infinity or what is no number, with an optional
sign and without blanks. -/
def readChars? (s : List Char) : Option Float :=
  let (negative, rest) := splitSign s
  (readUnsigned? rest).map (withSign negative)

/-- `readChars?` on a string. -/
def read? (s : String) : Option Float :=
  readChars? s.toList

/-- `read?` after the blanks at both ends are taken off. -/
def readTrimmed? (s : String) : Option Float :=
  readChars? (trim s.toList)

/-- A text without a digit or a point at its start is no decimal. -/
theorem readDecimal?_eq_none_of_head {c : Char} {s : List Char} (hd : isDigit c = false)
    (hp : c ≠ '.') : readDecimal? (c :: s) = none := by
  simp [readDecimal?, spanDigits, splitFraction, hd]
  split <;> simp_all

end EnergyFormula.Number
