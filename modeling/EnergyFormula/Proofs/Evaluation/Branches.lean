import EnergyFormula.Proofs.Evaluation.Weighing
import EnergyFormula.Proofs.Expression.Part

/-!
# What a conditional branch is protected from

Both branches of a conditional branch are evaluated over the whole grid before any of them is
selected.  A branch that divides by zero somewhere is no failure if it is selected in no interval
(`Signal.exists_select_eq_ok_iff`), and otherwise it is one, even if it is not selected in the
interval of the zero divisor (`Expression.eval_positiveReciprocal`).

An expression fails with a division by zero only where one of its divisions has a divisor that is
read as zero (`Expression.dividesWithin_eval`).  So a conditional branch is evaluated if the
branches that are selected divide by zero nowhere, and it has then in every interval what the
selected branch is read as there (`Expression.eval_conditional`).
-/

namespace EnergyFormula

/-! ### Zero divisors -/

section ZeroDivisors

variable (n : Nat) (input : Nat → String → Option Sample)

/-- Somewhere in the expression a divisor is read as zero in the interval. -/
def Expression.DividesByZero (e : Expression) (i : Nat) : Prop :=
  ∃ dividend divisors, Expression.Part (.apply (.extension "div") (dividend :: divisors)) e ∧
    ∃ p ∈ divisors, ∃ x, p.reference DomainFunction.weighed n input i = some x ∧
      (x.value == 0) = true

/-- The same somewhere in an expression that is the parameter. -/
def Parameter.DividesByZero (p : Parameter) (i : Nat) : Prop :=
  ∃ e, p = .expression e ∧ e.DividesByZero n input i

variable {n input}

theorem Parameter.DividesByZero.of_mem {p : Parameter} {i : Nat}
    (h : p.DividesByZero n input i) {function : DomainFunction} {ps : List Parameter}
    (hp : p ∈ ps) : (Expression.apply function ps).DividesByZero n input i := by
  obtain ⟨e, rfl, dividend, divisors, hpart, hzero⟩ := h
  exact ⟨dividend, divisors, .nested hpart hp, hzero⟩

theorem Parameter.forall₂_of_references {weigh : DomainFunction → List Sample → List Sample}
    {ps : List Parameter} {i : Nat} {xs : List Sample}
    (h : references weigh n input ps i = some xs) :
    List.Forall₂ (fun p x => p.reference weigh n input i = some x) ps xs := by
  induction ps generalizing xs with
  | nil =>
    cases h
    exact .nil
  | cons p rest ih =>
    rw [references] at h
    obtain ⟨x, hx, h⟩ := Option.bind_eq_some_iff.1 h
    obtain ⟨others, hothers, h⟩ := Option.bind_eq_some_iff.1 h
    cases h
    exact .cons hx (ih hothers)

end ZeroDivisors

/-! ### Failures with a division by zero -/

section Failures

variable {α : Type} {n : Nat} {zero zero' : Nat → Prop}

/-- The outcome fails with a division by zero only if there is a zero in one of `n` intervals. -/
def DividesWithin (n : Nat) (outcome : Except EvalError α) (zero : Nat → Prop) : Prop :=
  ∀ e, outcome = .error e → e.code = .divisionByZero → ∃ i < n, zero i

/-- A failure with any other code is no division by zero. -/
theorem DividesWithin.of_code {e : EvalError} (code : ErrorCode) (hcode : e.code = code)
    (h : code ≠ .divisionByZero) : DividesWithin n (.error e : Except EvalError α) zero :=
  FailsOnly.error fun hzero => absurd (hcode.symm.trans hzero) h

theorem DividesWithin.imp {outcome : Except EvalError α} (h : DividesWithin n outcome zero)
    (himp : ∀ i < n, zero i → zero' i) : DividesWithin n outcome zero' := by
  intro e he hcode
  obtain ⟨i, hi, hzero⟩ := h e he hcode
  exact ⟨i, hi, himp i hi hzero⟩

end Failures

namespace Signal

variable {n : Nat}

/-- A row of quotients breaks off at a zero among the values of a divisor. -/
theorem dividesWithin_divideBy (hn : 0 < n) {s : Signal} {signals : List Signal} (hs : s.Fits n)
    (h : ∀ t ∈ signals, t.Fits n) :
    DividesWithin n (divideBy s signals) fun i =>
      ∃ x ∈ samplesAt signals i, (x.value == 0) = true := by
  have hzero : ∀ i, Sample.divideBy? (s.sampleAt i) (samplesAt signals i) = none →
      ∃ x ∈ samplesAt signals i, (x.value == 0) = true := by
    intro i hnone
    have hvalues := Sample.map_value_divideBy? (s.sampleAt i) (samplesAt signals i)
    rw [hnone, Option.map_none, eq_comm, Number.divideBy?_eq_none_iff] at hvalues
    obtain ⟨v, hv, hzero⟩ := hvalues
    obtain ⟨x, hx, rfl⟩ := List.mem_map.1 hv
    exact ⟨x, hx, hzero⟩
  intro e he _
  obtain ⟨_, hnone⟩ := failsAtZeros_divideBy hs h e he
  cases hposition : e.position with
  | none =>
    rw [hposition] at hnone
    exact ⟨0, hn, hzero 0 (hnone 0 hn)⟩
  | some p =>
    rw [hposition] at hnone
    obtain ⟨i, hi, _, hnone⟩ := hnone
    exact ⟨i, hi, hzero i hnone⟩

end Signal

/-- Of all functions only the quotient divides. -/
theorem DomainFunction.dividesWithin_applyTo {n : Nat} {signals : List Signal} (hn : 0 < n)
    (function : DomainFunction) (h : ∀ t ∈ signals, t.Fits n) :
    DividesWithin n (function.applyTo signals) fun i => function = .extension "div" ∧
      ∃ x ∈ (Signal.samplesAt signals i).tail, (x.value == 0) = true := by
  unfold applyTo
  dsimp only
  split
  case h_1 | h_2 | h_3 | h_7 | h_12 | h_13 =>
    split
    · exact FailsOnly.ok _
    · exact DividesWithin.of_code .invalidParameter rfl (by decide)
  case h_14 =>
    cases signals with
    | nil => exact DividesWithin.of_code .invalidParameter rfl (by decide)
    | cons s rest =>
      obtain ⟨hs, hrest⟩ := List.forall_mem_cons.1 h
      exact (Signal.dividesWithin_divideBy hn hs hrest).imp fun i _ hzero => ⟨rfl, hzero⟩
  case h_18 => exact DividesWithin.of_code .invalidParameter rfl (by decide)
  all_goals exact FailsOnly.ok _

/-! ### Selections -/

namespace Signal

variable {n : Nat} {condition : Signal} {thenBranch otherwise : Except EvalError Signal}

/-- A condition picks a branch somewhere if it does so in one of the intervals. -/
theorem picksSomewhere_iff (hcondition : condition.Fits n) (hn : 0 < n) {branch : Bool} :
    condition.picksSomewhere branch = true ↔ ∃ i < n, condition.picks i = branch := by
  constructor
  · intro h
    cases condition with
    | scalar c => exact ⟨0, hn, beq_iff_eq.1 h⟩
    | series samples =>
      obtain ⟨i, hi, hpicks⟩ := List.any_eq_true.1 h
      have hsize := fits_series_iff.1 hcondition
      exact ⟨i, hsize ▸ List.mem_range.1 hi, beq_iff_eq.1 hpicks⟩
  · rintro ⟨i, hi, rfl⟩
    exact picksSomewhere_picks hcondition hi

theorem neededBranch_eq_error {needed : Bool} {branch : Except EvalError Signal} {e : EvalError}
    (h : neededBranch needed branch = .error e) : needed = true ∧ branch = .error e := by
  cases needed <;> cases branch <;> simp_all [neededBranch, Except.map]

/-- A selection fails as one of the branches that are picked somewhere. -/
theorem select_eq_error {e : EvalError} (h : select condition thenBranch otherwise n = .error e) :
    (condition.picksSomewhere true = true ∧ thenBranch = .error e) ∨
      (condition.picksSomewhere false = true ∧ otherwise = .error e) := by
  unfold select at h
  rcases bind_eq_error.1 h with h | ⟨a, _, h⟩
  · exact .inl (neededBranch_eq_error h)
  · rcases bind_eq_error.1 h with h | ⟨b, _, h⟩
    · exact .inr (neededBranch_eq_error h)
    · split at h <;> cases h

/-- A selection succeeds exactly if the branches do that are picked in some interval. -/
theorem exists_select_eq_ok_iff (hcondition : condition.Fits n) (hn : 0 < n) :
    (∃ s, select condition thenBranch otherwise n = .ok s) ↔
      ∀ i < n, ∃ t, (if condition.picks i then thenBranch else otherwise) = .ok t := by
  constructor
  · rintro ⟨s, hs⟩ i hi
    obtain ⟨_, hpicked⟩ := select_eq_ok hcondition hs
    obtain ⟨t, ht, _⟩ := hpicked i hi
    exact ⟨t, ht⟩
  · intro h
    cases hs : select condition thenBranch otherwise n with
    | ok s => exact ⟨s, rfl⟩
    | error e =>
      have hfails : ∀ branch, condition.picksSomewhere branch = true →
          (if branch then thenBranch else otherwise) ≠ .error e := by
        intro branch hsomewhere herror
        obtain ⟨i, hi, hpicks⟩ := (picksSomewhere_iff hcondition hn).1 hsomewhere
        obtain ⟨t, ht⟩ := h i hi
        rw [hpicks, herror] at ht
        cases ht
      rcases select_eq_error hs with ⟨hsomewhere, hthen⟩ | ⟨hsomewhere, helse⟩
      · exact absurd hthen (hfails true hsomewhere)
      · exact absurd helse (hfails false hsomewhere)

end Signal

/-! ### Failures of expressions -/

section Outcomes

variable {w : Workspace} {P : EvalError → Prop} {function : DomainFunction} {ps : List Parameter}

/-- A parameter fails for a number that is not finite or for its kind, or as what it refers to. -/
theorem Parameter.failsOnly_eval {p : Parameter} {index : Nat}
    (hcode : ∀ e : EvalError, e.code = .invalidParameter → P e)
    (hseries : ∀ name factor, p = .series name factor → FailsOnly P (w.series name))
    (hnested : ∀ e, p = .expression e → FailsOnly P (e.eval w)) :
    FailsOnly P (p.eval w function index) := by
  have hfinite : ∀ number value, FailsOnly P (requireFinite function index number value) := by
    intro number value
    unfold requireFinite
    split
    · exact .ok _
    · exact .error (hcode _ rfl)
  cases p with
  | constant value => exact (hfinite _ _).bind fun _ _ => .ok _
  | series name factor =>
    exact (hfinite _ _).bind fun _ _ => (hseries name factor rfl).bind fun _ _ => .ok _
  | literal value => exact .error (hcode _ rfl)
  | expression e => exact hnested e rfl

theorem Parameter.failsOnly_evalAll
    (h : ∀ p ∈ ps, ∀ index, FailsOnly P (p.eval w function index)) (index : Nat) :
    FailsOnly P (evalAll w function index ps) := by
  induction ps generalizing index with
  | nil => exact .ok _
  | cons p rest ih =>
    obtain ⟨hp, hrest⟩ := List.forall_mem_cons.1 h
    exact (hp index).bind fun _ _ => (ih hrest (index + 1)).bind fun _ _ => .ok _

/-- A conditional branch fails as one of its parameters, or for what is no comparison. -/
theorem Expression.failsOnly_conditional
    (hcode : ∀ e : EvalError, e.code = .unknownFunction ∨ e.code = .invalidParameter → P e)
    (hparameter : ∀ p ∈ ps, ∀ index, FailsOnly P (p.eval w .conditionalBranch index)) :
    FailsOnly P ((Expression.apply .conditionalBranch ps).eval w) := by
  unfold Expression.eval
  split
  · rename_i heq
    cases heq
    split
    · exact .error (hcode _ (.inr rfl))
    · refine (hparameter _ (by simp) 0).bind fun x _ => (hparameter _ (by simp) 2).bind fun y _ => ?_
      intro e he
      rcases Signal.select_eq_error he with ⟨_, hthen⟩ | ⟨_, helse⟩
      · exact hparameter _ (by simp) 3 e hthen
      · exact hparameter _ (by simp) 4 e helse
  · exact .error (hcode _ (.inr rfl))
  · rename_i hliteral hother heq
    cases heq
    refine ((DomainFunction.failsOnly_check _ _).imp hcode).bind fun _ hcheck => ?_
    -- all rows of five parameters have been treated
    obtain ⟨a, b, c, d, f, rfl⟩ := DomainFunction.eq_five_of_check hcheck
    exact absurd rfl (hother a b c d f rfl)

/-- An expression fails as one of its parameters, for their number, or as its function of them. -/
theorem Expression.failsOnly_apply
    (hcode : ∀ e : EvalError, e.code = .unknownFunction ∨ e.code = .invalidParameter → P e)
    (hparameter : ∀ p ∈ ps, ∀ index, FailsOnly P (p.eval w function index))
    (happly : ∀ signals, Parameter.evalAll w function 0 ps = .ok signals →
      FailsOnly P (function.applyTo signals)) :
    FailsOnly P ((Expression.apply function ps).eval w) := by
  by_cases hbranch : function = .conditionalBranch
  · subst hbranch
    exact failsOnly_conditional hcode hparameter
  · rw [Expression.eval_apply w hbranch]
    exact ((DomainFunction.failsOnly_check _ _).imp hcode).bind fun _ _ =>
      (Parameter.failsOnly_evalAll hparameter 0).bind happly

end Outcomes

/-! ### Blame for a division by zero -/

section Blame

variable {w : Workspace} {input : Nat → String → Option Sample}

/-- If the expression fails with a division by zero, then some division in it has a divisor that is
read as zero. -/
def Expression.IsBlamed (w : Workspace) (input : Nat → String → Option Sample) (e : Expression) :
    Prop :=
  w.Gives input e.allNames →
    DividesWithin w.grid.length (e.eval w) (e.DividesByZero w.grid.length input)

theorem Parameter.dividesWithin_eval {function : DomainFunction} {index : Nat} {p : Parameter}
    (hnested : ∀ e, p = .expression e → e.IsBlamed w input) (hinput : w.Gives input p.allNames) :
    DividesWithin w.grid.length (p.eval w function index)
      (p.DividesByZero w.grid.length input) := by
  refine failsOnly_eval ?_ ?_ ?_
  · intro e hcode hzero
    rw [hcode] at hzero
    cases hzero
  · intro name factor _
    unfold Workspace.series
    split
    · exact .ok _
    · exact DividesWithin.of_code .unresolvedTimeSeriesReference rfl (by decide)
  · rintro e rfl
    exact (hnested e rfl hinput).imp fun i _ hzero => ⟨e, rfl, hzero⟩

/-- An expression fails with a division by zero only if one of its divisions has a divisor that is
read as zero in some interval. -/
theorem Expression.dividesWithin_eval (hw : w.Fits) (hn : 0 < w.grid.length) (e : Expression) :
    e.IsBlamed w input := by
  induction e using Expression.induction with
  | step function ps hnested =>
    intro hinput
    refine failsOnly_apply ?_ (fun p hp index => ?_) fun signals hsignals => ?_
    · rintro e (hcode | hcode) hzero <;>
      · rw [hcode] at hzero
        cases hzero
    · refine (Parameter.dividesWithin_eval ?_ ?_).imp fun i _ hzero => hzero.of_mem hp
      · rintro e rfl
        exact hnested e hp
      · intro name hname
        exact hinput name (Parameter.mem_listNames hname hp)
    · obtain ⟨hfits, hsamples⟩ :=
        Parameter.shows_evalAll hw (fun e _ => e.shows_eval hw) hinput hsignals
      refine (DomainFunction.dividesWithin_applyTo hn function hfits).imp ?_
      -- the zero is what one of the divisors is read as
      rintro i hi ⟨rfl, x, hx, hzero⟩
      have hread := Parameter.forall₂_of_references (hsamples i hi)
      generalize Signal.samplesAt signals i = xs at hread hx
      cases hread with
      | nil => cases hx
      | @cons p _ divisors _ _ hdivisors =>
        obtain ⟨q, hq, hqx⟩ := exists_left_of_forall₂ hdivisors x hx
        exact ⟨p, divisors, .self _, q, hq, x, hqx, hzero⟩

end Blame

/-! ### Conditional branches -/

/-- `Wenn_Dann(a, operator, b, thenBranch, otherwise)`. -/
def Expression.conditional (a : Parameter) (operator : String) (b thenBranch otherwise : Parameter) :
    Expression :=
  .apply .conditionalBranch [a, .literal operator, b, thenBranch, otherwise]

/-- What the comparison of two signals selects in an interval. -/
def Comparison.selected {α : Type} (comparison : Comparison) (x y : Signal)
    (thenBranch otherwise : α) (i : Nat) : α :=
  if comparison.holds (x.sampleAt i).value (y.sampleAt i).value then thenBranch else otherwise

section Conditional

variable {a b thenBranch otherwise : Parameter} {operator : String} {comparison : Comparison}
  {inputs : Inputs} {grid : Grid} {w : Workspace} {x y s : Signal}
  {input : Nat → String → Option Sample}

theorem Expression.eval_conditional_of_ok (hcomparison : Comparison.parse? operator = some comparison)
    (hx : a.eval w .conditionalBranch 0 = .ok x) (hy : b.eval w .conditionalBranch 2 = .ok y) :
    (conditional a operator b thenBranch otherwise).eval w =
      Signal.select (x.compare comparison y) (thenBranch.eval w .conditionalBranch 3)
        (otherwise.eval w .conditionalBranch 4) w.grid.length := by
  rw [conditional, Expression.eval, hcomparison]
  dsimp only
  rw [hx, ok_bind, hy, ok_bind]

/-- The signals that are compared have the samples that are read, and so has the result. -/
theorem Expression.shows_conditional (hw : w.Fits)
    (hinput : w.Gives input (conditional a operator b thenBranch otherwise).allNames) :
    (∀ p ∈ [a, b], ∀ index t, p.eval w .conditionalBranch index = .ok t →
      t.Shows w.grid.length (p.reference DomainFunction.weighed w.grid.length input)) ∧
      (conditional a operator b thenBranch otherwise).IsRead w input := by
  refine ⟨fun p hp index t ht => ?_, Expression.shows_eval hw _⟩
  refine Parameter.shows_eval hw (fun e _ => e.shows_eval hw) ?_ ht
  intro name hname
  refine hinput name (Parameter.mem_listNames hname ?_)
  rcases List.mem_cons.1 hp with rfl | hp
  · exact List.mem_cons_self
  · simp [List.mem_singleton.1 hp]

/-- A conditional branch has a signal exactly if the branches have one that it selects somewhere. -/
theorem Expression.exists_eval_conditional_iff (hn : 0 < w.grid.length)
    (hcomparison : Comparison.parse? operator = some comparison)
    (hx : a.eval w .conditionalBranch 0 = .ok x) (hy : b.eval w .conditionalBranch 2 = .ok y)
    (hxfits : x.Fits w.grid.length) (hyfits : y.Fits w.grid.length) :
    (∃ s, (conditional a operator b thenBranch otherwise).eval w = .ok s) ↔
      ∀ i < w.grid.length, ∃ t, comparison.selected x y (thenBranch.eval w .conditionalBranch 3)
        (otherwise.eval w .conditionalBranch 4) i = .ok t := by
  have hcondition : (x.compare comparison y).Fits w.grid.length := hxfits.combine hyfits _
  rw [eval_conditional_of_ok hcomparison hx hy, Signal.exists_select_eq_ok_iff hcondition hn]
  refine forall₂_congr fun i hi => ?_
  rw [Signal.picks_compare hxfits hyfits hi]
  rfl

/-- A branch that fails at most with a division by zero, and divides by zero nowhere, has a
signal. -/
theorem Parameter.exists_eval_eq_ok (hw : w.Fits) (hn : 0 < w.grid.length) {p : Parameter}
    (hinput : w.Gives input p.allNames) {function : DomainFunction} {index : Nat}
    (hcode : ∀ e, p.eval w function index = .error e → e.code = .divisionByZero)
    (hzero : ∀ i < w.grid.length, ¬ p.DividesByZero w.grid.length input i) :
    ∃ t, p.eval w function index = .ok t := by
  cases ht : p.eval w function index with
  | ok t => exact ⟨t, rfl⟩
  | error e =>
    have hnested : ∀ e, p = .expression e → e.IsBlamed w input :=
      fun e _ => e.dividesWithin_eval hw hn
    obtain ⟨i, hi, hdivides⟩ := dividesWithin_eval hnested hinput e ht (hcode e ht)
    exact absurd hdivides (hzero i hi)

/-- The sample of a conditional branch is that of the selected branch, no better than the samples
that are compared. -/
theorem Expression.reference_conditional {n i : Nat} {x y z : Sample}
    (hcomparison : Comparison.parse? operator = some comparison)
    (hx : a.reference DomainFunction.weighed n input i = some x)
    (hy : b.reference DomainFunction.weighed n input i = some y)
    (h : (conditional a operator b thenBranch otherwise).reference DomainFunction.weighed n input i =
      some z) :
    ∃ u, (if comparison.holds x.value y.value then thenBranch else otherwise).reference
        DomainFunction.weighed n input i = some u ∧
      z = ⟨u.value, .worstOf [u.quality, x.quality, y.quality]⟩ := by
  rw [conditional, Expression.reference, hcomparison, Option.bind_some, hx, Option.bind_some, hy,
    Option.bind_some, Sample.chosen?] at h
  obtain ⟨u, hu, rfl⟩ := Option.map_eq_some_iff.1 h
  refine ⟨u, ?_, rfl⟩
  split at hu
  · rw [if_pos ‹_›]
    exact hu
  · rw [if_neg ‹_›]
    exact hu

/-! ### Main result -/

/-- Over a grid with intervals, a conditional branch whose branches fail at most with a division by
zero is evaluated exactly if those branches are that it selects in some interval, and otherwise it
fails with a division by zero.  It is evaluated if the branches that it selects divide by zero in no
interval, and it has then in every interval the number that the selected branch is read as there. -/
theorem Expression.eval_conditional
    (hw : Workspace.prepare grid inputs (conditional a operator b thenBranch otherwise).seriesNames =
      .ok w)
    (hn : 0 < grid.length) (hcomparison : Comparison.parse? operator = some comparison)
    (hx : a.eval w .conditionalBranch 0 = .ok x) (hy : b.eval w .conditionalBranch 2 = .ok y)
    (hthen : ∀ e, thenBranch.eval w .conditionalBranch 3 = .error e → e.code = .divisionByZero)
    (helse : ∀ e, otherwise.eval w .conditionalBranch 4 = .error e → e.code = .divisionByZero) :
    ((∃ s, (conditional a operator b thenBranch otherwise).eval w = .ok s) ↔
        ∀ i < grid.length, ∃ t, comparison.selected x y (thenBranch.eval w .conditionalBranch 3)
          (otherwise.eval w .conditionalBranch 4) i = .ok t) ∧
      (∀ e, (conditional a operator b thenBranch otherwise).eval w = .error e →
        e.code = .divisionByZero) ∧
        ((∀ i < grid.length, ∀ j < grid.length,
            ¬ (comparison.selected x y thenBranch otherwise i).DividesByZero grid.length
              (grid.readings inputs) j) →
          ∃ s, (conditional a operator b thenBranch otherwise).eval w = .ok s ∧
            ∀ i < grid.length, ∃ z,
              (comparison.selected x y thenBranch otherwise i).reference DomainFunction.weighed
                  grid.length (grid.readings inputs) i = some z ∧
                s.sampleAt i = ⟨z.value,
                  .worstOf [z.quality, (x.sampleAt i).quality, (y.sampleAt i).quality]⟩) := by
  obtain ⟨rfl, hfits⟩ := Workspace.fits_prepare hw
  have hgives : w.Gives (w.grid.readings inputs)
      (conditional a operator b thenBranch otherwise).allNames := by
    intro name hname i hi
    exact (Workspace.sampleAt?_prepare hw (mem_seriesNames.2 hname) hi).symm
  obtain ⟨hcompared, hread⟩ := shows_conditional hfits hgives
  obtain ⟨hxfits, hxsample⟩ := hcompared a (by simp) 0 x hx
  obtain ⟨hyfits, hysample⟩ := hcompared b (by simp) 2 y hy
  have hsucceeds : (∃ s, (conditional a operator b thenBranch otherwise).eval w = .ok s) ↔ _ :=
    exists_eval_conditional_iff hn hcomparison hx hy hxfits hyfits
  refine ⟨hsucceeds, fun e he => ?_, fun hzero => ?_⟩
  · rw [eval_conditional_of_ok hcomparison hx hy] at he
    rcases Signal.select_eq_error he with ⟨_, he⟩ | ⟨_, he⟩
    · exact hthen e he
    · exact helse e he
  · obtain ⟨s, hs⟩ := hsucceeds.2 fun i hi => by
      have hbranch : ∀ p ∈ [thenBranch, otherwise],
          w.Gives (w.grid.readings inputs) p.allNames := by
        intro p hp name hname
        refine hgives name (Parameter.mem_listNames hname ?_)
        exact List.mem_cons_of_mem a (List.mem_cons_of_mem _ (List.mem_cons_of_mem b hp))
      have hnone := hzero i hi
      unfold Comparison.selected at hnone ⊢
      split at hnone
      · rw [if_pos ‹_›]
        exact Parameter.exists_eval_eq_ok hfits hn (hbranch _ (by simp)) hthen hnone
      · rw [if_neg ‹_›]
        exact Parameter.exists_eval_eq_ok hfits hn (hbranch _ (by simp)) helse hnone
    obtain ⟨_, hsample⟩ := hread hgives s hs
    exact ⟨s, hs, fun i hi =>
      reference_conditional hcomparison (hxsample i hi) (hysample i hi) (hsample i hi)⟩

end Conditional

/-- One divided by a series. -/
def Parameter.reciprocal : Parameter :=
  .expression (.apply (.extension "div") [.constant 1, .series "x" 1])

theorem Parameter.read_of_dividesByZero_reciprocal {n i : Nat}
    {input : Nat → String → Option Sample} (h : reciprocal.DividesByZero n input i) :
    ∃ x, (series "x" 1).reference DomainFunction.weighed n input i = some x ∧
      (x.value == 0) = true := by
  obtain ⟨e, he, dividend, divisors, hpart, p, hp, hzero⟩ := h
  cases he
  cases hpart with
  | self =>
    rw [List.mem_singleton.1 hp] at hzero
    exact hzero
  | nested _ hg => simp at hg

/-- The names of the series are in order already. -/
theorem Expression.seriesNames_of_pairwise {e : Expression}
    (h : e.allNames.Pairwise fun a b => a ≤ b) : e.seriesNames = e.allNames.eraseReps := by
  rw [seriesNames, distinct, List.mergeSort_of_pairwise (h.imp decide_eq_true)]

/-- The reciprocal is selected in no hour, and so its zero divisor in the second one is no
failure. -/
theorem Expression.eval_conditional_reciprocal :
    ∃ w s, Workspace.prepare .twoHours .fading
        (conditional (.series "x" 1) ">" (.constant 5) .reciprocal (.series "x" 1)).seriesNames =
          .ok w ∧
      (∃ e, Parameter.reciprocal.eval w .conditionalBranch 3 = .error e) ∧
        (conditional (.series "x" 1) ">" (.constant 5) .reciprocal (.series "x" 1)).eval w = .ok s ∧
          (s.sampleAt 0).value = 4 ∧ (s.sampleAt 1).value = 0 := by
  have hnames : (conditional (.series "x" 1) ">" (.constant 5) .reciprocal
      (.series "x" 1)).seriesNames = ["x"] := seriesNames_of_pairwise (by decide +kernel)
  have hparts : ∃ w x y, Workspace.prepare .twoHours .fading ["x"] = .ok w ∧
      (Parameter.series "x" 1).eval w .conditionalBranch 0 = .ok x ∧
        (Parameter.constant 5).eval w .conditionalBranch 2 = .ok y ∧
          Parameter.reciprocal.eval w .conditionalBranch 3 =
              .error (.atPosition .divisionByZero (Grid.position 1)) ∧
            (Parameter.series "x" 1).eval w .conditionalBranch 4 = .ok x ∧
              ∀ i < 2, Comparison.gt.holds (x.sampleAt i).value (y.sampleAt i).value = false := by
    refine ⟨_, _, _, rfl, rfl, rfl, rfl, rfl, ?_⟩
    decide +kernel
  obtain ⟨w, x, y, hw, hx, hy, hthen, helse, hcompare⟩ := hparts
  have hselected : ∀ i < 2, Comparison.gt.selected x y Parameter.reciprocal (.series "x" 1) i =
      .series "x" 1 := by
    intro i hi
    rw [Comparison.selected, hcompare i hi]
    rfl
  rw [← hnames] at hw
  have hsign : Comparison.parse? ">" = some .gt := by decide +kernel
  obtain ⟨_, _, hsucceeds⟩ := eval_conditional hw (by decide) hsign hx hy
    (by rw [hthen]; rintro _ ⟨⟩; rfl) (by rw [helse]; exact nofun)
  obtain ⟨s, hs, hsample⟩ := hsucceeds fun i hi j _ => by
    rw [hselected i hi]
    rintro ⟨e, he, _⟩
    cases he
  have hvalue : ∀ i < 2, some (s.sampleAt i).value =
      ((Parameter.series "x" 1).reference DomainFunction.weighed 2
        (Grid.twoHours.readings .fading) i).map Sample.value := by
    intro i hi
    obtain ⟨z, hz, hsz⟩ := hsample i hi
    rw [hselected i hi] at hz
    have hz : (Parameter.series "x" 1).reference DomainFunction.weighed 2
        (Grid.twoHours.readings .fading) i = some z := hz
    rw [hz, hsz]
    rfl
  refine ⟨w, s, hw, ⟨_, hthen⟩, hs, ?_, ?_⟩
  · exact Option.some.inj ((hvalue 0 (by decide)).trans (by decide +kernel))
  · exact Option.some.inj ((hvalue 1 (by decide)).trans (by decide +kernel))

/-- The reciprocal of a series where the series is positive, and seven elsewhere. -/
def Expression.positiveReciprocal : Expression :=
  conditional (.series "x" 1) ">" (.constant 0) .reciprocal (.constant 7)

/-- The reciprocal is selected in the first hour only, and there it divides by four; it is a failure
that it divides by zero in the second hour. -/
theorem Expression.eval_positiveReciprocal :
    ∃ w x y, Workspace.prepare .twoHours .fading positiveReciprocal.seriesNames = .ok w ∧
      (Parameter.series "x" 1).eval w .conditionalBranch 0 = .ok x ∧
        (Parameter.constant 0).eval w .conditionalBranch 2 = .ok y ∧
          (∀ e, Parameter.reciprocal.eval w .conditionalBranch 3 = .error e →
            e.code = .divisionByZero) ∧
            (∀ e, (Parameter.constant 7).eval w .conditionalBranch 4 = .error e →
              e.code = .divisionByZero) ∧
              (∀ i < Grid.twoHours.length,
                ¬ (Comparison.gt.selected x y Parameter.reciprocal (.constant 7) i).DividesByZero
                  Grid.twoHours.length (Grid.twoHours.readings .fading) i) ∧
                ¬ ∃ s, positiveReciprocal.eval w = .ok s := by
  have hnames : positiveReciprocal.seriesNames = ["x"] :=
    seriesNames_of_pairwise (by decide +kernel)
  have hparts : ∃ w x y, Workspace.prepare .twoHours .fading ["x"] = .ok w ∧
      (Parameter.series "x" 1).eval w .conditionalBranch 0 = .ok x ∧
        (Parameter.constant 0).eval w .conditionalBranch 2 = .ok y ∧
          Parameter.reciprocal.eval w .conditionalBranch 3 =
              .error (.atPosition .divisionByZero (Grid.position 1)) ∧
            positiveReciprocal.eval w = .error (.atPosition .divisionByZero (Grid.position 1)) ∧
              (∃ t, (Parameter.constant 7).eval w .conditionalBranch 4 = .ok t) ∧
                Comparison.gt.holds (x.sampleAt 0).value (y.sampleAt 0).value = true ∧
                  Comparison.gt.holds (x.sampleAt 1).value (y.sampleAt 1).value = false :=
    ⟨_, _, _, rfl, rfl, rfl, rfl, rfl, ⟨_, rfl⟩, by decide +kernel, by decide +kernel⟩
  obtain ⟨w, x, y, hw, hx, hy, hthen, heval, ⟨t, helse⟩, hfirst, hsecond⟩ := hparts
  have hpositive : ((Parameter.series "x" 1).reference DomainFunction.weighed
      Grid.twoHours.length (Grid.twoHours.readings .fading) 0).map (fun x => x.value == 0) =
        some false := by
    decide +kernel
  refine ⟨w, x, y, hnames ▸ hw, hx, hy, ?_, ?_, fun i hi => ?_, ?_⟩
  · rw [hthen]
    rintro _ ⟨⟩
    rfl
  · rw [helse]
    exact nofun
  · intro hzero
    match i, hi with
    | 0, _ =>
      rw [Comparison.selected, if_pos hfirst] at hzero
      obtain ⟨z, hz, hvalue⟩ := Parameter.read_of_dividesByZero_reciprocal hzero
      rw [hz, Option.map_some, hvalue] at hpositive
      cases hpositive
    | 1, _ =>
      rw [Comparison.selected, if_neg (Bool.eq_false_iff.1 hsecond)] at hzero
      obtain ⟨e, he, _⟩ := hzero
      cases he
  · rw [heval]
    exact nofun

/-- A branch on two constants that divides one by zero where the first one is greater. -/
def Expression.constantGuard : Expression :=
  conditional (.constant 1) ">" (.constant 0)
    (.expression (.apply (.extension "div") [.constant 1, .constant 0])) (.constant 7)

/-- The grid of `eval_conditional` must have an interval: without any, the comparison of two constants
still selects a branch. -/
theorem Expression.eval_constantGuard_leapSecond :
    ∃ w, Workspace.prepare .leapSecond [] constantGuard.seriesNames = .ok w ∧
      w.grid.length = 0 ∧ ¬ ∃ s, constantGuard.eval w = .ok s := by
  have hnames : constantGuard.seriesNames = [] := by decide +kernel
  have hfails : constantGuard.eval ⟨.leapSecond, []⟩ = .error (.of .divisionByZero) := rfl
  refine ⟨⟨.leapSecond, []⟩, hnames ▸ rfl, rfl, ?_⟩
  rw [hfails]
  exact nofun

end EnergyFormula
