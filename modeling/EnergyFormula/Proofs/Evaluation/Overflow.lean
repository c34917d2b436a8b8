import EnergyFormula.Proofs.Evaluation.Weighing
import EnergyFormula.Proofs.Number.Rounding

/-!
# Where numbers overflow

The numbers that go into a calculation are finite, but a sum, a difference, a product or a quotient
of finite numbers may be too large for a finite one.  Nothing else makes a number that is not finite
of finite ones (`DomainFunction.isFinite_number?`): not the choice of a branch, the absolute value, a
maximum, a minimum, a comparison or a rounding.

* `Formula.finite_or_overflows`: the number that a formula comes to is finite, unless some operator
  in it overflows, or what some meter contributes;
* `Expression.finite_or_overflows`: so is the sample of an expression in an interval, unless some
  function that counts there overflows, or some factor.
-/

namespace EnergyFormula

/-! ### Numbers -/

namespace Number

/-- Finite numbers are made into one that is not finite. -/
def Overflows (xs : List Float) (v : Float) : Prop :=
  (∀ x ∈ xs, x.isFinite = true) ∧ v.isFinite = false

theorem overflows_of_not_isFinite {xs : List Float} {v : Float} (hxs : ∀ x ∈ xs, x.isFinite = true)
    (hv : ¬ v.isFinite = true) : Overflows xs v :=
  ⟨hxs, Bool.eq_false_of_not_eq_true hv⟩

theorem isFinite_abs {x : Float} (hx : x.isFinite = true) : x.abs.isFinite = true := by
  rw [isFinite_iff_below] at hx ⊢
  refine below_pack (Int.le_refl _) ?_
  unfold Below at hx
  cases hu : x.toModel.unpack with
  | zero s => trivial
  | finite s m e hm => rw [hu] at hx; exact hx
  | infinity s => rw [hu] at hx; exact hx.elim
  | notANumber => rw [hu] at hx; exact hx.elim

theorem isFinite_greater {x y : Float} (hx : x.isFinite = true) (hy : y.isFinite = true) :
    (Signal.greater x y).isFinite = true := by
  unfold Signal.greater
  split_ifs
  · exact hy
  · exact hy
  · exact hx

theorem isFinite_lesser {x y : Float} (hx : x.isFinite = true) (hy : y.isFinite = true) :
    (Signal.lesser x y).isFinite = true := by
  unfold Signal.lesser
  split_ifs
  · exact hy
  · exact hy
  · exact hx

theorem isFinite_indicator (b : Bool) : (Signal.indicator b).isFinite = true := by
  cases b <;> decide +kernel

theorem isFinite_fold? {f : Float → Float → Float}
    (hf : ∀ {x y : Float}, x.isFinite = true → y.isFinite = true → (f x y).isFinite = true)
    {xs : List Float} (hxs : ∀ x ∈ xs, x.isFinite = true) {v : Float} (hv : fold? f xs = some v) :
    v.isFinite = true := by
  cases xs with
  | nil => cases hv
  | cons x rest =>
    cases hv
    induction rest generalizing x with
    | nil => exact hxs x List.mem_cons_self
    | cons y rest ih =>
      refine ih (f x y) ?_
      simp only [List.forall_mem_cons] at hxs ⊢
      exact ⟨hf hxs.1 hxs.2.1, hxs.2.2⟩

end Number

/-! ### Functions -/

namespace DomainFunction

/-- The function adds, subtracts, multiplies or divides. -/
def isArithmetic : DomainFunction → Bool
  | groupedSum => true
  | portionAboveThreshold => true
  | portionBelowThreshold => true
  | meteringTypeConversion => true
  | extension name => ["add", "sub", "mul", "div"].contains name
  | _ => false

/-- A function makes a finite number of finite ones, unless it adds, subtracts, multiplies or
divides. -/
theorem isFinite_number? {function : DomainFunction} (h : function.isArithmetic = false)
    {xs : List Float} (hxs : ∀ x ∈ xs, x.isFinite = true) {v : Float}
    (hv : function.number? xs = some v) : v.isFinite = true := by
  unfold number? at hv
  split at hv
  case h_1 => cases h
  case h_2 => exact Number.isFinite_fold? Number.isFinite_greater hxs hv
  case h_3 => exact Number.isFinite_fold? Number.isFinite_lesser hxs hv
  case h_4 => cases h
  case h_5 => cases h
  case h_6 =>
    cases hv
    exact Number.isFinite_indicator _
  case h_7 x places =>
    obtain ⟨k, _, rfl⟩ := Option.map_eq_some_iff.1 hv
    rw [Number.isFinite_roundHalfAway]
    exact hxs x List.mem_cons_self
  case h_8 => cases h
  case h_9 => cases h
  case h_10 => exact absurd h (by decide)
  case h_11 => exact absurd h (by decide)
  case h_12 => exact absurd h (by decide)
  case h_13 => exact absurd h (by decide)
  case h_14 x =>
    cases hv
    exact Number.isFinite_abs (hxs x List.mem_cons_self)
  case h_15 =>
    cases hv
    exact hxs v List.mem_cons_self
  case h_16 => cases hv

/-- The function makes a number that is not finite of these finite ones. -/
def Overflows (function : DomainFunction) (xs : List Float) : Prop :=
  function.isArithmetic = true ∧ ∃ v, function.number? xs = some v ∧ Number.Overflows xs v

theorem finite_or_overflows {function : DomainFunction} {xs : List Float}
    (hxs : ∀ x ∈ xs, x.isFinite = true) {v : Float} (hv : function.number? xs = some v) :
    v.isFinite = true ∨ function.Overflows xs := by
  by_cases hfinite : v.isFinite = true
  · exact .inl hfinite
  · right
    refine ⟨?_, v, hv, Number.overflows_of_not_isFinite hxs hfinite⟩
    by_contra harithmetic
    exact hfinite (isFinite_number? (Bool.eq_false_of_not_eq_true harithmetic) hxs hv)

end DomainFunction

/-! ### Formulas -/

section Formulas

variable {x : String → Float}

/-- An operator makes of its operands what the function of the same name makes of them. -/
theorem Formula.value?_eq_number? (f : Formula) :
    f.value? x =
      (Operand.values? x f.operands).bind (DomainFunction.extension f.operatorName).number? := by
  cases f with
  | add ops => rfl
  | mul ops => rfl
  | div ops => rfl
  | sub a b =>
    simp only [Formula.value?, Formula.operands, Operand.values?]
    cases a.value? x <;> cases b.value? x <;> rfl
  | pos op =>
    simp only [Formula.value?, Formula.operands, Operand.values?]
    cases op.value? x <;> rfl
  | operand op =>
    simp only [Formula.value?, Formula.operands, Operand.values?]
    cases op.value? x <;> rfl

/-- What a meter contributes is not finite, although its reading is. -/
def Operand.Overflows (x : String → Float) : Operand → Prop
  | .meter m => Number.Overflows [x m.meter.text] (x m.meter.text * m.effectiveFactor)
  | _ => False

/-- Somewhere in the formula an operator, or what a meter contributes, is not finite, although the
numbers that it is made of are. -/
def Formula.Overflows (x : String → Float) (f : Formula) : Prop :=
  ∃ g, Formula.Part g f ∧
    ((∃ op ∈ g.operands, op.Overflows x) ∨
      ∃ us, Operand.values? x g.operands = some us ∧
        (DomainFunction.extension g.operatorName).Overflows us)

theorem Formula.Overflows.nested {f g : Formula} (h : g.Overflows x)
    (hg : Operand.nested g ∈ f.operands) : f.Overflows x := by
  obtain ⟨part, hpart, hoverflow⟩ := h
  exact ⟨part, .nested hpart hg, hoverflow⟩

/-- With finite numbers for its series an operand comes to a finite number, unless a meter
overflows. -/
theorem Operand.finite_or_overflows {op : Operand}
    (hx : ∀ r ∈ op.allReferences, (x r.name).isFinite = true)
    (hnested : ∀ g, op = .nested g → ∀ u, g.value? x = some u → u.isFinite = true) {u : Float}
    (hu : op.value? x = some u) : u.isFinite = true ∨ op.Overflows x := by
  cases op with
  | meter m =>
    rw [Operand.value?, Option.some.injEq] at hu
    rw [← hu]
    refine or_iff_not_imp_left.2 fun hfinite => Number.overflows_of_not_isFinite ?_ hfinite
    rw [List.forall_mem_singleton]
    exact hx (.meter m.meter) (List.mem_singleton.2 rfl)
  | constant c =>
    rw [Operand.value?, Option.some.injEq] at hu
    rw [← hu]
    exact .inl c.finite
  | «variable» v =>
    rw [Operand.value?, Option.some.injEq] at hu
    rw [← hu]
    exact .inl (hx (.variable v) (List.mem_singleton.2 rfl))
  | nested g => exact .inl (hnested g rfl u hu)

/-- With finite numbers for its series a formula comes to a finite number, unless it overflows. -/
theorem Formula.finite_or_overflows {f : Formula}
    (hx : ∀ r ∈ f.allReferences, (x r.name).isFinite = true) {v : Float}
    (hv : f.value? x = some v) : v.isFinite = true ∨ f.Overflows x := by
  induction f using Formula.induction generalizing v with
  | step f ih =>
    by_cases hoverflow : f.Overflows x
    · exact .inr hoverflow
    rw [allReferences_eq] at hx
    -- all operands come to finite numbers
    have hoperand : ∀ op ∈ f.operands, ∀ u, op.value? x = some u → u.isFinite = true := by
      intro op hop u hu
      have hreferences : ∀ r ∈ op.allReferences, (x r.name).isFinite = true :=
        fun r hr => hx r (Operand.mem_listReferences hr hop)
      have hnested : ∀ g, op = .nested g → ∀ u, g.value? x = some u → u.isFinite = true := by
        rintro g rfl u hu
        exact (ih g hop hreferences hu).resolve_right fun h => hoverflow (h.nested hop)
      refine (Operand.finite_or_overflows hreferences hnested hu).resolve_right fun h => ?_
      exact hoverflow ⟨f, .self f, .inl ⟨op, hop, h⟩⟩
    rw [value?_eq_number?] at hv
    obtain ⟨us, hus, hv⟩ := Option.bind_eq_some_iff.1 hv
    have hfinite : ∀ u ∈ us, u.isFinite = true := by
      intro u hu
      obtain ⟨op, hop, hvalue⟩ := exists_left_of_forall₂ (Operand.forall₂_of_values? hus) u hu
      exact hoperand op hop u hvalue
    refine (DomainFunction.finite_or_overflows hfinite hv).imp_right fun h => ?_
    exact ⟨f, .self f, .inr ⟨us, hus, h⟩⟩

end Formulas

/-! ### Expressions -/

section Expressions

variable (n : Nat) (input : Nat → String → Option Sample)

mutual

/-- At one of `n` intervals some function in the expression makes a number that is not finite of
finite ones, or some factor does.  A branch counts where it is taken, and a reduction counts all
intervals. -/
def Expression.Overflows : Expression → Nat → Prop
  | .apply .conditionalBranch [a, .literal operator, b, thenBranch, otherwise], i =>
    a.Overflows i ∨ b.Overflows i ∨
      ∃ comparison x y, Comparison.parse? operator = some comparison ∧
        a.reference DomainFunction.weighed n input i = some x ∧
          b.reference DomainFunction.weighed n input i = some y ∧
            if comparison.holds x.value y.value then thenBranch.Overflows i
            else otherwise.Overflows i
  | .apply .intervalMax [p], _ => ∃ j < n, p.Overflows j
  | .apply .intervalMin [p], _ => ∃ j < n, p.Overflows j
  | .apply function ps, i =>
    Parameter.AnyOverflows ps i ∨
      ∃ xs, Parameter.references DomainFunction.weighed n input ps i = some xs ∧
        function.Overflows (xs.map Sample.value)

/-- A parameter overflows at an interval. -/
def Parameter.Overflows : Parameter → Nat → Prop
  | .constant _, _ => False
  | .series name factor, i =>
    ∃ x, input i name = some x ∧ Number.Overflows [x.value, factor] (x.value * factor)
  | .literal _, _ => False
  | .expression e, i => e.Overflows i

/-- One of several parameters overflows at an interval. -/
def Parameter.AnyOverflows : List Parameter → Nat → Prop
  | [], _ => False
  | p :: rest, i => p.Overflows i ∨ Parameter.AnyOverflows rest i

end

end Expressions

section Evaluation

variable {w : Workspace} {input : Nat → String → Option Sample} {i : Nat}

/-- All samples of the names are finite. -/
def FiniteIn (n : Nat) (input : Nat → String → Option Sample) (names : List String) : Prop :=
  ∀ name ∈ names, ∀ i < n, ∀ x, input i name = some x → x.value.isFinite = true

/-- The signal of the expression, if it has one, has a finite sample wherever the expression does
not overflow. -/
def Expression.StaysFinite (w : Workspace) (input : Nat → String → Option Sample)
    (e : Expression) : Prop :=
  w.Gives input e.allNames → FiniteIn w.grid.length input e.allNames →
    ∀ s, e.eval w = .ok s → ∀ i < w.grid.length,
      (s.sampleAt i).value.isFinite = true ∨ e.Overflows w.grid.length input i

theorem Parameter.finite_or_overflows (hw : w.Fits) {function : DomainFunction} {index : Nat}
    {p : Parameter} (hnested : ∀ e, p = .expression e → e.StaysFinite w input)
    (hinput : w.Gives input p.allNames) (hfinite : FiniteIn w.grid.length input p.allNames)
    {s : Signal} (h : p.eval w function index = .ok s) (hi : i < w.grid.length) :
    (s.sampleAt i).value.isFinite = true ∨ p.Overflows w.grid.length input i := by
  cases p with
  | constant v =>
    obtain ⟨hvalue, rfl⟩ := eval_constant_eq_ok_iff.1 h
    exact .inl hvalue
  | series name factor =>
    obtain ⟨hfactor, _⟩ := eval_series_eq_ok_iff.1 h
    have hread := (shows_eval hw (fun e _ => e.shows_eval hw) hinput h).2 i hi
    obtain ⟨x, hx, hsample⟩ := Option.bind_eq_some_iff.1 hread
    rw [← Option.some.inj hsample]
    have hvalue := hfinite name (List.mem_singleton.2 rfl) i hi x hx
    refine or_iff_not_imp_left.2 fun hproduct => ⟨x, hx, ?_⟩
    refine Number.overflows_of_not_isFinite ?_ hproduct
    simp [hvalue, hfactor]
  | literal v => cases h
  | expression e => exact hnested e rfl hinput hfinite s h i hi

/-- The parameters of a function that do not overflow have finite samples. -/
theorem Parameter.all_finite_or_overflows (hw : w.Fits) {function : DomainFunction} :
    ∀ {ps : List Parameter} {index : Nat} {signals : List Signal},
      (∀ e, Parameter.expression e ∈ ps → e.StaysFinite w input) →
        w.Gives input (listNames ps) → FiniteIn w.grid.length input (listNames ps) →
          evalAll w function index ps = .ok signals → i < w.grid.length →
            (∀ v ∈ (Signal.samplesAt signals i).map Sample.value, v.isFinite = true) ∨
              AnyOverflows w.grid.length input ps i
  | [], _, signals, _, _, _, h, _ => by
    cases h
    exact .inl (List.forall_mem_nil _)
  | p :: rest, index, signals, hnested, hinput, hfinite, h, hi => by
    obtain ⟨s, hs, h⟩ := bind_eq_ok.1 h
    obtain ⟨others, hothers, h⟩ := bind_eq_ok.1 h
    cases h
    obtain ⟨hp, hrest⟩ := List.forall_mem_append.1 hinput
    obtain ⟨hpfinite, hrestfinite⟩ := List.forall_mem_append.1 hfinite
    have hfirst : ∀ e, p = .expression e → e.StaysFinite w input := by
      rintro e rfl
      exact hnested e List.mem_cons_self
    rcases Parameter.finite_or_overflows hw hfirst hp hpfinite hs hi with hvalue | hoverflow
    · have hothers := all_finite_or_overflows hw
        (fun e he => hnested e (List.mem_cons_of_mem p he)) hrest hrestfinite hothers hi
      exact hothers.imp (fun hvalues => List.forall_mem_cons.2 ⟨hvalue, hvalues⟩) .inr
    · exact .inr (.inl hoverflow)

theorem Expression.staysFinite_conditional (hw : w.Fits) {ps : List Parameter}
    (hnested : ∀ e, Parameter.expression e ∈ ps → e.StaysFinite w input) :
    (Expression.apply .conditionalBranch ps).StaysFinite w input := by
  intro hinput hfinite s h i hi
  obtain ⟨a, operator, b, thenBranch, otherwise, comparison, x, y, rfl, hcomparison, hx, hy,
    hselect⟩ := eval_conditional_eq_ok h
  have hgives : ∀ p ∈ [a, .literal operator, b, thenBranch, otherwise], w.Gives input p.allNames :=
    fun p hp name hname => hinput name (Parameter.mem_listNames hname hp)
  have hbranch : ∀ p ∈ [a, .literal operator, b, thenBranch, otherwise], ∀ index t,
      p.eval w .conditionalBranch index = .ok t →
        (t.sampleAt i).value.isFinite = true ∨ p.Overflows w.grid.length input i := by
    intro p hp index t ht
    refine Parameter.finite_or_overflows hw ?_ (hgives p hp) ?_ ht hi
    · rintro e rfl
      exact hnested e hp
    · exact fun name hname => hfinite name (Parameter.mem_listNames hname hp)
  obtain ⟨hxfits, hxsample⟩ :=
    Parameter.shows_eval hw (fun e _ => e.shows_eval hw) (hgives a (by simp)) hx
  obtain ⟨hyfits, hysample⟩ :=
    Parameter.shows_eval hw (fun e _ => e.shows_eval hw) (hgives b (by simp)) hy
  have hcondition : (x.compare comparison y).Fits w.grid.length := hxfits.combine hyfits _
  obtain ⟨t, ht, hsample⟩ := (Signal.select_eq_ok hcondition hselect).2 i hi
  rw [Signal.picks_compare hxfits hyfits hi] at ht
  rw [hsample]
  -- the branch that is taken decides
  by_cases hholds : comparison.holds (x.sampleAt i).value (y.sampleAt i).value = true
  · rw [if_pos hholds] at ht
    refine (hbranch thenBranch (by simp) 3 t ht).imp_right fun hoverflow => ?_
    refine .inr (.inr ⟨comparison, _, _, hcomparison, hxsample i hi, hysample i hi, ?_⟩)
    rwa [if_pos hholds]
  · rw [if_neg hholds] at ht
    refine (hbranch otherwise (by simp) 4 t ht).imp_right fun hoverflow => ?_
    refine .inr (.inr ⟨comparison, _, _, hcomparison, hxsample i hi, hysample i hi, ?_⟩)
    rwa [if_neg hholds]

theorem Expression.staysFinite_reduction (hw : w.Fits) {function : DomainFunction}
    {pick : Float → Float → Float} (hpick : ∀ v, pick v v = v)
    (hfold : ∀ {x y : Float}, x.isFinite = true → y.isFinite = true → (pick x y).isFinite = true)
    (happly : ∀ s, function.applyTo [s] = .ok (s.reduce pick))
    (hoverflows : ∀ p i, (∃ j < w.grid.length, p.Overflows w.grid.length input j) →
      (Expression.apply function [p]).Overflows w.grid.length input i)
    (hcount : ∀ k, function.parameterCount k = .one) (hbranch : function ≠ .conditionalBranch)
    {ps : List Parameter} (hnested : ∀ e, Parameter.expression e ∈ ps → e.StaysFinite w input) :
    (Expression.apply function ps).StaysFinite w input := by
  intro hinput hfinite s h i hi
  obtain ⟨p, t, rfl, ht, h⟩ := Expression.exists_of_eval_one hbranch hcount h
  rw [happly] at h
  cases h
  have hgives : w.Gives input p.allNames :=
    fun name hname => hinput name (Parameter.mem_listNames hname List.mem_cons_self)
  have hnames : FiniteIn w.grid.length input p.allNames :=
    fun name hname => hfinite name (Parameter.mem_listNames hname List.mem_cons_self)
  have hfirst : ∀ e, p = .expression e → e.StaysFinite w input := by
    rintro e rfl
    exact hnested e List.mem_cons_self
  by_cases hoverflow : ∃ j < w.grid.length, p.Overflows w.grid.length input j
  · exact .inr (hoverflows p i hoverflow)
  left
  -- without an overflow the samples of all intervals are finite
  have hall : ∀ v ∈ (t.samplesIn w.grid.length).map Sample.value, v.isFinite = true := by
    intro v hv
    obtain ⟨x, hx, rfl⟩ := List.mem_map.1 hv
    obtain ⟨j, hj, rfl⟩ := List.mem_map.1 hx
    have hj := List.mem_range.1 hj
    exact (Parameter.finite_or_overflows hw hfirst hgives hnames ht hj).resolve_right
      fun h => hoverflow ⟨j, hj, h⟩
  obtain ⟨hfits, _⟩ := Parameter.shows_eval hw (fun e _ => e.shows_eval hw) hgives ht
  have hreduced := Signal.reduced?_samplesIn hpick hfits (Nat.zero_lt_of_lt hi) i
  obtain ⟨v, hv, hsample⟩ := Option.map_eq_some_iff.1 hreduced
  rw [← hsample]
  exact Number.isFinite_fold? hfold hall hv

theorem Expression.overflows_apply {n : Nat} {function : DomainFunction}
    (hbranch : function ≠ .conditionalBranch) (hreduction : function.isReduction = false)
    (ps : List Parameter) (i : Nat) :
    (Expression.apply function ps).Overflows n input i ↔
      Parameter.AnyOverflows n input ps i ∨
        ∃ xs, Parameter.references DomainFunction.weighed n input ps i = some xs ∧
          function.Overflows (xs.map Sample.value) := by
  cases function with
  | conditionalBranch => exact absurd rfl hbranch
  | intervalMax => cases hreduction
  | intervalMin => cases hreduction
  | _ => rfl

/-- With finite inputs an expression that has a signal has a finite sample wherever it does not
overflow. -/
theorem Expression.finite_or_overflows (hw : w.Fits) (e : Expression) : e.StaysFinite w input := by
  induction e using Expression.induction with
  | step function ps hnested =>
    by_cases hbranch : function = .conditionalBranch
    · subst hbranch
      exact staysFinite_conditional hw hnested
    · cases hreduction : function.isReduction with
      | true =>
        cases function with
        | intervalMax =>
          exact staysFinite_reduction hw Signal.greater_self Number.isFinite_greater
            (fun _ => rfl) (fun p i h => by rwa [Expression.Overflows]) (fun _ => rfl) hbranch hnested
        | intervalMin =>
          exact staysFinite_reduction hw Signal.lesser_self Number.isFinite_lesser
            (fun _ => rfl) (fun p i h => by rwa [Expression.Overflows]) (fun _ => rfl) hbranch hnested
        | _ => cases hreduction
      | false =>
        intro hinput hfinite s h i hi
        obtain ⟨_, signals, hsignals, h⟩ := (Expression.eval_apply_eq_ok_iff hbranch).1 h
        obtain ⟨hfits, hsamples⟩ :=
          Parameter.shows_evalAll hw (fun e _ => e.shows_eval hw) hinput hsignals
        have hsample := (DomainFunction.shows_applyTo hreduction hfits h).2 i hi
        obtain ⟨v, hv, hsample⟩ := Option.map_eq_some_iff.1 hsample
        rw [← hsample, overflows_apply hbranch hreduction]
        rcases Parameter.all_finite_or_overflows hw hnested hinput hfinite hsignals hi with
          hvalues | hoverflow
        · refine (DomainFunction.finite_or_overflows hvalues hv).imp_right fun hfunction => ?_
          exact .inr ⟨_, hsamples i hi, hfunction⟩
        · exact .inr (.inl hoverflow)

end Evaluation

end EnergyFormula
