import EnergyFormula.Evaluation.Alignment
import EnergyFormula.Number.Rounding
import EnergyFormula.Text.Blank

/-!
# Signals

A `Signal` is one sample for every interval of a grid, or a scalar that stands for the same sample
in all of them.  The functions here combine signals interval by interval; what comes out is as good
as the worst of what went in (`Signal.combine_sampleAt`).
-/

namespace EnergyFormula

/-- Samples over a grid, or one sample for all of it. -/
inductive Signal where
  | scalar (s : Sample)
  | series (samples : Array Sample)

namespace Signal

/-- The same validated value everywhere. -/
def constant (value : Float) : Signal :=
  .scalar (.validated value)

/-- The signal is a single sample. -/
def isScalar : Signal → Bool
  | scalar _ => true
  | series _ => false

/-- The number of samples of a series. -/
def length? : Signal → Option Nat
  | scalar _ => none
  | series samples => some samples.size

/-- The sample in an interval; beyond the end of a series data is missing. -/
def sampleAt (s : Signal) (i : Nat) : Sample :=
  match s with
  | scalar sample => sample
  | series samples => samples.getD i .missing

/-- One sample for each of `length` intervals. -/
def samples (s : Signal) (length : Nat) : Array Sample :=
  match s with
  | scalar sample => Array.replicate length sample
  | series samples => samples

/-- Every value changed, every quality kept. -/
def map (f : Float → Float) : Signal → Signal
  | scalar s => scalar ⟨f s.value, s.quality⟩
  | series samples => series (samples.map fun s => ⟨f s.value, s.quality⟩)

/-- Two samples made into one. -/
def join (f : Float → Float → Float) (a b : Sample) : Sample :=
  ⟨f a.value b.value, a.quality.worst b.quality⟩

/-- The number of samples of what two signals are combined to; two scalars give a scalar. -/
def commonLength? (a b : Signal) : Option Nat :=
  a.length? <|> b.length?

/-- Two signals combined interval by interval. -/
def combine (f : Float → Float → Float) (a b : Signal) : Signal :=
  match commonLength? a b with
  | none => scalar (join f (a.sampleAt 0) (b.sampleAt 0))
  | some n => series (Array.ofFn fun i : Fin n => join f (a.sampleAt i) (b.sampleAt i))

/-- In every interval of it, a combination has the combined samples. -/
theorem combine_sampleAt (f : Float → Float → Float) (a b : Signal) (i : Nat)
    (h : ∀ n ∈ commonLength? a b, i < n) :
    (combine f a b).sampleAt i = join f (a.sampleAt i) (b.sampleAt i) := by
  unfold combine
  split
  · rename_i hn
    cases a with
    | series => simp [commonLength?, length?] at hn
    | scalar =>
      cases b with
      | series => simp [commonLength?, length?] at hn
      | scalar => rfl
  · rename_i n hn
    have := h n hn
    simp [Signal.sampleAt, this]

/-- The first signal combined with each of the others in turn; nothing for no signal. -/
def fold? (f : Float → Float → Float) : List Signal → Option Signal
  | [] => none
  | s :: rest => some (rest.foldl (combine f) s)

/-- The sum of all signals, from left to right. -/
def sum? : List Signal → Option Signal :=
  fold? (· + ·)

/-- The product of all signals, from left to right. -/
def product? : List Signal → Option Signal :=
  fold? (· * ·)

/-- The quotient of two signals.  The first interval with a zero divisor fails. -/
def quotient (a b : Signal) : Except EvalError Signal :=
  match commonLength? a b with
  | none =>
    if (b.sampleAt 0).value == 0 then .error (.of .divisionByZero) else .ok (combine (· / ·) a b)
  | some n =>
    match (List.range n).find? fun i => (b.sampleAt i).value == 0 with
    | some i => .error (.atPosition .divisionByZero (Grid.position i))
    | none => .ok (combine (· / ·) a b)

/-- A signal divided by each of several divisors in turn. -/
def divideBy (a : Signal) : List Signal → Except EvalError Signal
  | [] => .ok a
  | b :: rest => do
    let q ← quotient a b
    divideBy q rest

/-- The first signal divided by the others, from left to right. -/
def divide? : List Signal → Option (Except EvalError Signal)
  | [] => none
  | s :: rest => some (divideBy s rest)

/-- A signal times a factor; the factor one changes nothing. -/
def scale (s : Signal) (factor : Float) : Signal :=
  if factor == 1 then s else s.map (· * factor)

/-- The absolute value. -/
def abs : Signal → Signal :=
  map Float.abs

/-- The greater of two numbers; what is no number gives way, and of equal ones the first stays. -/
def greater (a b : Float) : Float :=
  if a.isNaN then b else if a < b then b else a

/-- The lesser of two numbers; what is no number gives way, and of equal ones the first stays. -/
def lesser (a b : Float) : Float :=
  if a.isNaN then b else if b < a then b else a

/-- The maximum of several signals in every interval. -/
def crossMax? : List Signal → Option Signal :=
  fold? greater

/-- The minimum of several signals in every interval. -/
def crossMin? : List Signal → Option Signal :=
  fold? lesser

/-- A number above zero, and zero for every other one and for what is no number. -/
def positivePart (x : Float) : Float :=
  if 0 < x then x else 0

/-- What a series exceeds a threshold by, and otherwise zero. -/
def portionAbove : Signal → Signal → Signal :=
  combine fun v t => positivePart (v - t)

/-- What a series falls short of a threshold by, and otherwise zero. -/
def portionBelow : Signal → Signal → Signal :=
  combine fun v t => positivePart (t - v)

/-- One for what holds, zero for what does not. -/
def indicator (b : Bool) : Float :=
  if b then 1 else 0

/-- One where the first signal is greater than the second, and otherwise zero. -/
def greaterThan : Signal → Signal → Signal :=
  combine fun x y => indicator (y < x)

end Signal

/-- The comparison of a conditional branch. -/
inductive Comparison where
  | gt
  | ge
  | lt
  | le
  | eq
  | ne
  deriving DecidableEq

namespace Comparison

/-- The comparison with a sign, blanks around it aside. -/
def parse? (operator : String) : Option Comparison :=
  match Text.trimmed operator with
  | ">" => some gt
  | ">=" => some ge
  | "<" => some lt
  | "<=" => some le
  | "==" => some eq
  | "=" => some eq
  | "!=" => some ne
  | "<>" => some ne
  | _ => none

/-- The comparison holds between two numbers. -/
def holds : Comparison → Float → Float → Bool
  | gt, a, b => b < a
  | ge, a, b => b ≤ a
  | lt, a, b => a < b
  | le, a, b => a ≤ b
  | eq, a, b => a == b
  | ne, a, b => a != b

end Comparison

namespace Signal

/-- One where a comparison holds, and otherwise zero. -/
def compare (a : Signal) (op : Comparison) (b : Signal) : Signal :=
  combine (fun x y => indicator (op.holds x y)) a b

/-- A condition picks the first branch where it is not zero. -/
def picks (condition : Signal) (i : Nat) : Bool :=
  (condition.sampleAt i).value != 0

/-- The condition picks the given branch in some interval. -/
def picksSomewhere (condition : Signal) (branch : Bool) : Bool :=
  match condition with
  | scalar _ => condition.picks 0 == branch
  | series samples => (List.range samples.size).any fun i => condition.picks i == branch

/-- A branch that is picked somewhere must have been evaluated; one that is not does not count. -/
def neededBranch (needed : Bool) (branch : Except EvalError Signal) :
    Except EvalError (Option Signal) :=
  if needed then branch.map some else .ok none

/-- The sample of the branch that the condition picks, no better than the condition. -/
def choose (condition : Signal) (thenBranch otherwise : Option Signal) (i : Nat) : Sample :=
  let branch := if condition.picks i then thenBranch else otherwise
  let chosen := match branch with
    | some s => s.sampleAt i
    | none => .missing
  ⟨chosen.value, chosen.quality.worst (condition.sampleAt i).quality⟩

/-- The first branch where the condition is not zero, the second one elsewhere.  A branch that
could not be evaluated is an error only if it is picked in some interval. -/
def select (condition : Signal) (thenBranch otherwise : Except EvalError Signal) (length : Nat) :
    Except EvalError Signal := do
  let a ← neededBranch (condition.picksSomewhere true) thenBranch
  let b ← neededBranch (condition.picksSomewhere false) otherwise
  if condition.isScalar && a.all isScalar && b.all isScalar then
    return scalar (choose condition a b 0)
  else return series (Array.ofFn fun i : Fin length => choose condition a b i)

/-- Every value rounded to decimal places. -/
def round (s : Signal) (places : Nat) : Signal :=
  s.map fun x => Number.roundHalfAway x places

/-- All intervals reduced to one sample, as good as the worst of them. -/
def reduce (pick : Float → Float → Float) : Signal → Signal
  | scalar s => scalar s
  | series samples =>
    let value := match samples.toList with
      | [] => 0
      | s :: rest => (rest.map Sample.value).foldl pick s.value
    scalar ⟨value, worstQuality (samples.toList.map Sample.quality)⟩

/-- The maximum over all intervals. -/
def intervalMax : Signal → Signal :=
  reduce greater

/-- The minimum over all intervals. -/
def intervalMin : Signal → Signal :=
  reduce lesser

end Signal

end EnergyFormula
