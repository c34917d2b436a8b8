import EnergyFormula.Number.Magnitude

/-!
# The fewest digits that read back

Every real in a small interval around a finite number, its `Cell`, reads back as that number.
`shortest` finds the point of that interval with the fewest decimal digits: it goes from coarse
decimal grids to finer ones and stops at the first grid with a point inside (`Cell.coarsest`); of
two points of that grid it takes the nearer one.
-/

namespace EnergyFormula.Number

/-- The number `coefficient · 10^exponent`. -/
structure Decimal where
  coefficient : Nat
  exponent : Int
  deriving DecidableEq

/-- Where a number goes that lies exactly between two points of a decimal grid. -/
inductive Tie where
  | up
  | toEven
  deriving DecidableEq

/-- The reals that read back as one number: from `low / unit` to `high / unit` around
`middle / unit`, the ends included iff `closed`. -/
structure Cell where
  low : Nat
  middle : Nat
  high : Nat
  unit : Nat
  closed : Bool

/-- The cell of a magnitude: half a step to either side, but only a quarter downwards where the
steps below are half as wide. -/
def Magnitude.cell (m : Magnitude) : Cell :=
  let scale := Nat.pow 2 (m.exponent - 2).toNat
  let below := if m.mantissa = Nat.pow 2 52 ∧ m.exponent ≠ -1074 then 1 else 2
  { low := (4 * m.mantissa - below) * scale
    middle := 4 * m.mantissa * scale
    high := (4 * m.mantissa + 2) * scale
    unit := Nat.pow 2 (2 - m.exponent).toNat
    closed := m.mantissa % 2 = 0 }

/-- The cell in units of `10^k / (unit · 10^k)`: a point `c · 10^k` of the grid is compared as
`c · step` with the three scaled marks. -/
def Cell.contains (cell : Cell) (k : Int) (c : Nat) : Bool :=
  let point := c * (cell.unit * Nat.pow 10 k.toNat)
  let scale := Nat.pow 10 (-k).toNat
  if cell.closed then cell.low * scale ≤ point && point ≤ cell.high * scale
  else cell.low * scale < point && point < cell.high * scale

/-- Of the two neighbours `c` and `c + 1` of the middle on a grid, the nearer one. -/
def nearer (tie : Tie) (below above c : Nat) : Nat :=
  if below < above then c
  else if above < below then c + 1
  else match tie with
    | .up => c + 1
    | .toEven => if c % 2 = 0 then c else c + 1

/-- The point of the grid of multiples of `10^k` that lies in the cell, the nearest to its middle
if there are two. -/
def Cell.point? (cell : Cell) (tie : Tie) (k : Int) : Option Nat :=
  let step := cell.unit * Nat.pow 10 k.toNat
  let middle := cell.middle * Nat.pow 10 (-k).toNat
  let c := middle / step
  match cell.contains k c, cell.contains k (c + 1) with
  | true, true => some (nearer tie (middle - c * step) ((c + 1) * step - middle) c)
  | true, false => some c
  | false, true => some (c + 1)
  | false, false => none

/-- The point in the cell on the coarsest grid, looking from the grid of `10^k` on at most `steps`
finer grids; the last of them takes the point below the middle. -/
def Cell.coarsest (cell : Cell) (tie : Tie) : Nat → Int → Decimal
  | 0, k => ⟨cell.middle * Nat.pow 10 (-k).toNat / (cell.unit * Nat.pow 10 k.toNat), k⟩
  | steps + 1, k =>
    match cell.point? tie k with
    | some c => ⟨c, k⟩
    | none => cell.coarsest tie steps (k - 1)

/-- An exponent `k` such that `10^k` exceeds the magnitude. -/
def Magnitude.decimalBound (m : Magnitude) : Int :=
  ((Nat.log2 m.mantissa : Int) + m.exponent + 1) * 30103 / 100000 + 2

/-- The decimal with the fewest digits that reads back as the magnitude.  Seventeen digits always
do, and the search begins at most three digits too high. -/
def shortest (tie : Tie) (m : Magnitude) : Decimal :=
  if m.mantissa = 0 then ⟨0, 0⟩ else m.cell.coarsest tie 24 m.decimalBound

/-- The point found on a grid lies in the cell. -/
theorem Cell.contains_of_point? {cell : Cell} {tie : Tie} {k : Int} {c : Nat}
    (h : cell.point? tie k = some c) : cell.contains k c = true := by
  simp only [Cell.point?] at h
  split at h
  · rename_i h₁ h₂
    simp only [nearer, Option.some.injEq] at h
    subst h
    repeat' split
    all_goals assumption
  all_goals simp_all

/-- Grids coarser than the one that is found hold no neighbour of the middle in the cell. -/
theorem Cell.point?_eq_none_of_coarser {cell : Cell} {tie : Tie} :
    ∀ {steps : Nat} {start k : Int}, (cell.coarsest tie steps start).exponent < k → k ≤ start →
      cell.point? tie k = none
  | 0, start, k, h, hk => by simp only [Cell.coarsest] at h; omega
  | steps + 1, start, k, h, hk => by
    simp only [Cell.coarsest] at h
    split at h
    · simp only at h; omega
    · rename_i hn
      by_cases heq : k = start
      · exact heq ▸ hn
      · exact Cell.point?_eq_none_of_coarser h (by omega)

end EnergyFormula.Number
