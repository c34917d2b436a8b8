import EnergyFormula.Evaluation.Expression
import EnergyFormula.Evaluation.Formula
import EnergyFormula.Proofs.Number.Product
import EnergyFormula.Proofs.Outcome

/-!
# Factors and operators on signals

A factor acts on a signal like the product with a constant (`Signal.combine_mul_constant`), and an
operator of a formula acts like the function of the same name (`Formula.eval_eq_applyTo`).  All
functions but a conditional branch are applied to their parameters (`Expression.eval_apply`), which
are constants, series with factors (`Parameter.eval_series_eq_ok_iff`) and nested expressions.  What
they fail for lies in their parameters and their number (`DomainFunction.failsOnly_check`,
`DomainFunction.failsOnly_applyTo`).
-/

namespace EnergyFormula

namespace Signal

/-! ### Factors -/

theorem map_id (s : Signal) : (s.map fun x => x) = s := by
  cases s with
  | scalar _ => rfl
  | series samples => exact congrArg Signal.series (Array.map_id samples)

/-- A factor is applied to every value; for the factor one that changes nothing. -/
theorem scale_eq_map (s : Signal) (k : Float) : s.scale k = s.map (· * k) := by
  unfold scale
  split
  · rename_i hk
    have h : (fun x : Float => x * k) = fun x => x := by
      funext x
      rw [Number.eq_one_of_beq hk, Number.mul_one]
    rw [h, map_id]
  · rfl

/-- A signal that is combined with a constant keeps its shape and its qualities. -/
theorem combine_constant (f : Float → Float → Float) (s : Signal) (k : Float) :
    combine f s (constant k) = s.map (f · k) := by
  have hq (q : IntervalQuality) : q.worst .validated = q := by cases q <;> rfl
  cases s with
  | scalar sample => exact congrArg (fun q => scalar ⟨f sample.value k, q⟩) (hq _)
  | series samples =>
    refine congrArg series (Array.ext (by simp) fun i h₁ h₂ => ?_)
    simp [join, sampleAt, constant, Sample.validated, hq]

/-- A factor acts like the product with a constant. -/
theorem combine_mul_constant (s : Signal) (k : Float) :
    combine (· * ·) s (constant k) = s.scale k := by
  rw [combine_constant, scale_eq_map]

end Signal

/-! ### Operators -/

/-- A signal for every operand. -/
theorem Operand.length_evalAll {w : Workspace} {ops : List Operand} {ss : List Signal}
    (h : evalAll w ops = .ok ss) : ss.length = ops.length := by
  induction ops generalizing ss with
  | nil =>
    cases h
    rfl
  | cons op ops ih =>
    rw [evalAll] at h
    obtain ⟨s, _, h⟩ := bind_eq_ok.1 h
    obtain ⟨rest, hrest, h⟩ := bind_eq_ok.1 h
    cases h
    rw [List.length_cons, List.length_cons, ih hrest]

/-- An operator over a list of operands that is not empty need not ask for one. -/
theorem Operand.evalAll_bind_requireOperands {w : Workspace} {ops : List Operand}
    (hops : ops ≠ [])
    {operator : String} {result : List Signal → Option (Except EvalError Signal)}
    {outcome : List Signal → Except EvalError Signal}
    (h : ∀ s rest, result (s :: rest) = some (outcome (s :: rest))) :
    (do let signals ← evalAll w ops; requireOperands operator (result signals))
      = evalAll w ops >>= outcome := by
  cases hss : evalAll w ops with
  | error e => rfl
  | ok ss =>
    have hpos : 0 < ss.length := by
      rw [length_evalAll hss]
      exact List.length_pos_iff.2 hops
    obtain ⟨s, rest, rfl⟩ := List.exists_cons_of_length_pos hpos
    rw [ok_bind, ok_bind, h]
    rfl

/-- An operator with operands acts like the function of the same name. -/
theorem Formula.eval_eq_applyTo (w : Workspace) {f : Formula} (h : f.operands ≠ []) :
    f.eval w
      = Operand.evalAll w f.operands >>= (DomainFunction.extension f.operatorName).applyTo := by
  cases f with
  | add ops => exact Operand.evalAll_bind_requireOperands h fun _ _ => rfl
  | mul ops => exact Operand.evalAll_bind_requireOperands h fun _ _ => rfl
  | div ops => exact Operand.evalAll_bind_requireOperands h fun _ _ => rfl
  | sub a b =>
    simp only [Formula.eval, Formula.operands, Operand.evalAll]
    cases a.eval w <;> cases b.eval w <;> rfl
  | pos op =>
    simp only [Formula.eval, Formula.operands, Operand.evalAll]
    cases op.eval w <;> rfl
  | operand op =>
    simp only [Formula.eval, Formula.operands, Operand.evalAll]
    cases op.eval w <;> rfl

/-! ### Functions -/

/-- Every function but a conditional branch is applied to all of its parameters. -/
theorem Expression.eval_apply (w : Workspace) {function : DomainFunction}
    (h : function ≠ .conditionalBranch) (ps : List Parameter) :
    (Expression.apply function ps).eval w = (do
      function.check ps.length
      let signals ← Parameter.evalAll w function 0 ps
      function.applyTo signals) := by
  rw [Expression.eval]
  · rintro a operator b t o rfl
    exact absurd rfl h
  · rintro a operator b t o rfl
    exact absurd rfl h

theorem Expression.eval_apply_eq_ok_iff {w : Workspace} {function : DomainFunction}
    (h : function ≠ .conditionalBranch) {ps : List Parameter} {s : Signal} :
    (Expression.apply function ps).eval w = .ok s ↔
      function.check ps.length = .ok () ∧ ∃ signals, Parameter.evalAll w function 0 ps = .ok signals ∧
        function.applyTo signals = .ok s := by
  simp only [eval_apply w h, bind_eq_ok]
  constructor
  · rintro ⟨_, hcheck, hsignals⟩
    exact ⟨hcheck, hsignals⟩
  · rintro ⟨hcheck, hsignals⟩
    exact ⟨_, hcheck, hsignals⟩

/-! ### Constants and series -/

section Leaves

variable {w : Workspace} {function : DomainFunction} {index : Nat} {s : Signal}

theorem requireFinite_eq_ok_iff {number : ParameterNumber} {value x : Float} :
    requireFinite function index number value = .ok x ↔ value.isFinite = true ∧ value = x := by
  unfold requireFinite
  split
  · rename_i h
    rw [Except.ok.injEq, and_iff_right h]
  · rename_i h
    exact iff_of_false nofun fun hfinite => h hfinite.1

theorem Parameter.eval_constant_eq_ok_iff {value : Float} :
    (Parameter.constant value).eval w function index = .ok s ↔
      value.isFinite = true ∧ s = .constant value := by
  rw [Parameter.eval, bind_eq_ok]
  simp only [requireFinite_eq_ok_iff, pure_eq_ok, Except.ok.injEq, and_assoc, exists_eq_left',
    exists_and_left, eq_comm]

theorem Workspace.series_eq_series {name : String} (h : w.series name = .ok s) :
    ∃ samples, s = .series samples := by
  unfold Workspace.series at h
  split at h
  · rename_i samples _
    cases h
    exact ⟨samples, rfl⟩
  · cases h

/-- A series with a finite factor is the series times the factor. -/
theorem Parameter.eval_series (w : Workspace) (function : DomainFunction) (index : Nat)
    (name : String) {factor : Float} (h : factor.isFinite = true) :
    (Parameter.series name factor).eval w function index
      = (do let signal ← w.series name; return signal.scale factor) := by
  rw [Parameter.eval, requireFinite_eq_ok_iff.2 ⟨h, rfl⟩]
  rfl

theorem Parameter.eval_series_eq_ok_iff {name : String} {factor : Float} :
    (Parameter.series name factor).eval w function index = .ok s ↔
      factor.isFinite = true ∧ ∃ samples, w.series name = .ok (.series samples) ∧
        s = (Signal.series samples).scale factor := by
  constructor
  · intro h
    obtain ⟨k, hk, h⟩ := bind_eq_ok.1 h
    obtain ⟨t, ht, h⟩ := bind_eq_ok.1 h
    obtain ⟨hfinite, rfl⟩ := requireFinite_eq_ok_iff.1 hk
    obtain ⟨samples, rfl⟩ := w.series_eq_series ht
    cases h
    exact ⟨hfinite, samples, ht, rfl⟩
  · rintro ⟨hfinite, samples, ht, rfl⟩
    rw [Parameter.eval_series _ _ _ _ hfinite, ht]
    rfl

end Leaves

/-! ### Failures of functions -/

/-- A function is not evaluated if it is unknown or has a wrong number of parameters. -/
theorem DomainFunction.failsOnly_check (function : DomainFunction) (given : Nat) :
    FailsOnly (fun e => e.code = .unknownFunction ∨ e.code = .invalidParameter)
      (function.check given) := by
  unfold check
  split
  · split
    · exact .error (.inl rfl)
    · split
      · exact .ok _
      · exact .error (.inr rfl)
  · split
    · exact .ok _
    · exact .error (.inr rfl)

theorem Signal.failsOnly_quotient (s t : Signal) :
    FailsOnly (fun e => e.code = .divisionByZero) (quotient s t) := by
  unfold quotient
  split
  · split
    · exact .error rfl
    · exact .ok _
  · split
    · exact .error rfl
    · exact .ok _

theorem Signal.failsOnly_divideBy (s : Signal) (signals : List Signal) :
    FailsOnly (fun e => e.code = .divisionByZero) (divideBy s signals) := by
  induction signals generalizing s with
  | nil => exact .ok s
  | cons t rest ih => exact (failsOnly_quotient s t).bind fun q _ => ih q

/-- A function of signals fails for a zero divisor, for their number or for decimal places. -/
theorem DomainFunction.failsOnly_applyTo (function : DomainFunction) (signals : List Signal) :
    FailsOnly (fun e => e.code = .divisionByZero ∨ e.code = .invalidParameter)
      (function.applyTo signals) := by
  unfold applyTo
  dsimp only
  split
  case h_1 | h_2 | h_3 | h_7 | h_12 | h_13 =>
    split
    · exact .ok _
    · exact .error (.inr rfl)
  case h_14 =>
    cases signals with
    | nil => exact .error (.inr rfl)
    | cons s rest => exact (Signal.failsOnly_divideBy s rest).imp fun _ => .inl
  case h_18 => exact .error (.inr rfl)
  all_goals exact .ok _

end EnergyFormula
