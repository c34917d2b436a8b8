import EnergyFormula.Proofs.Conversion.Lowering
import EnergyFormula.Proofs.Evaluation.Signal
import EnergyFormula.Proofs.Formula.Part

/-!
# The meaning of lowered expressions

A lowered expression evaluates to what its formula evaluates to, over every workspace and failures
included (`Expression.LowersTo.eval_eq`).  The formula also reads the same series, in the same order
(`Expression.LowersTo.names_eq`), so that the inputs fail alike before anything is evaluated.
-/

namespace EnergyFormula

/-! ### Evaluating the forms that are lowered -/

/-- The sum of a single parameter is that parameter. -/
theorem Expression.eval_groupedSum_singleton (w : Workspace) (p : Parameter) :
    (Expression.apply .groupedSum [p]).eval w = p.eval w .groupedSum 0 := by
  rw [Expression.eval_apply w (by decide)]
  simp only [Parameter.evalAll]
  cases p.eval w .groupedSum 0 <;> rfl

/-- The product of a variable and a constant is the series times the constant. -/
theorem Formula.eval_scaled (w : Workspace) (v : FormulaVariable) (c : ConstLiteral) :
    (Formula.mul [.variable v, .constant c]).eval w
      = (do let signal ← w.series v.text; return signal.scale c.value) := by
  rw [Formula.eval_eq_applyTo w (by simp [Formula.operands])]
  simp only [Formula.operands, Operand.evalAll, Operand.eval]
  cases w.series v.text with
  | error e => rfl
  | ok s => exact congrArg Except.ok (Signal.combine_mul_constant s c.value)

/-! ### The same signal -/

mutual

/-- A lowered expression evaluates to what its formula evaluates to, failures included. -/
theorem Expression.LowersTo.eval_eq (w : Workspace) :
    ∀ {e : Expression} {f : Formula}, e.LowersTo [] f → f.eval w = e.eval w
  | _, _, .scaled _ hr hc => by
    obtain ⟨v, rfl, rfl⟩ := hr.eq_variable
    rw [Expression.eval_groupedSum_singleton, Formula.eval_scaled,
      ConstLiteral.value_of_ofNumber hc,
      Parameter.eval_series _ _ _ _ (ConstLiteral.isFinite_of_ofNumber hc)]
  | _, _, .single _ hp => by
    rw [Expression.eval_groupedSum_singleton, Formula.eval, hp.eval_eq w]
  | .apply .groupedSum ps, .add ops, .sum hlen hps => by
    have hlength := hps.length_eq
    -- two operands and more are as many as the function and the operator take
    have hne : ops ≠ [] := by
      rintro rfl
      rw [← hlength] at hlen
      cases hlen
    have hcount : DomainFunction.groupedSum.check ps.length = .ok () :=
      if_pos (decide_eq_true (Nat.le_of_succ_le hlen))
    rw [Expression.eval_apply w (by decide), hcount, ok_bind, ← hps.evalAll_eq w, Formula.eval]
    exact Operand.evalAll_bind_requireOperands hne fun _ _ => rfl
  | _, _, .operator hps hf => by
    have hlen := hps.length_eq
    rw [Expression.eval_apply w (by simp), Formula.eval_eq_applyTo w hf.operands_ne_nil,
      hf.operator, hf.operands_eq, ← hlen, hf.count, ok_bind, hps.evalAll_eq w]

/-- A lowered parameter evaluates to what its operand evaluates to. -/
theorem Parameter.LowersTo.eval_eq (w : Workspace) {function : DomainFunction} {index : Nat} :
    ∀ {scaled : Bool} {p : Parameter} {op : Operand},
      p.LowersTo [] scaled op → op.eval w = p.eval w function index
  | _, _, _, .reference hr => by
    obtain ⟨v, rfl, rfl⟩ := hr.eq_variable
    rw [Parameter.eval_series _ _ _ _ Number.isFinite_one, Operand.eval]
    cases w.series v.text <;> rfl
  | _, _, _, .product _ hr hc => by
    obtain ⟨v, rfl, rfl⟩ := hr.eq_variable
    rw [Operand.eval, Formula.eval_scaled, ConstLiteral.value_of_ofNumber hc,
      Parameter.eval_series _ _ _ _ (ConstLiteral.isFinite_of_ofNumber hc)]
  | _, _, _, .constant hc => by
    rw [Operand.eval, ConstLiteral.value_of_ofNumber hc]
    exact (Parameter.eval_constant_eq_ok_iff.2 ⟨ConstLiteral.isFinite_of_ofNumber hc, rfl⟩).symm
  | _, _, _, .expression he => by
    rw [Operand.eval, Parameter.eval, he.eval_eq w]

/-- Lowered parameters evaluate to what their operands evaluate to; the first failure counts. -/
theorem Parameter.AllLowerTo.evalAll_eq (w : Workspace) {function : DomainFunction}
    {index : Nat} :
    ∀ {scaled : Bool} {ps : List Parameter} {ops : List Operand},
      Parameter.AllLowerTo [] scaled ps ops →
        Operand.evalAll w ops = Parameter.evalAll w function index ps
  | _, _, _, .nil => rfl
  | _, _, _, .cons hp hps => by
    rw [Operand.evalAll, Parameter.evalAll, hp.eval_eq w, hps.evalAll_eq w]

end

/-! ### The same series -/

section Distinct

variable {α β : Type} [BEq α] [LawfulBEq α] [BEq β] [LawfulBEq β]

theorem map_eraseReps {f : α → β} (hf : Function.Injective f) (xs : List α) :
    xs.eraseReps.map f = (xs.map f).eraseReps := by
  have hbeq (a b : α) : (f a == f b) = (a == b) := by
    rw [Bool.eq_iff_iff, beq_iff_eq, beq_iff_eq]
    exact hf.eq_iff
  -- both loops drop the same elements, as `f` keeps different ones apart
  have loop : ∀ (xs : List α) (a : α) (done : List α),
      (List.eraseRepsBy.loop (· == ·) a xs done).map f
        = List.eraseRepsBy.loop (· == ·) (f a) (xs.map f) (done.map f) := by
    intro xs
    induction xs with
    | nil => intro a done; simp [List.eraseRepsBy.loop]
    | cons b xs ih =>
      intro a done
      simp only [List.eraseRepsBy.loop, List.map_cons, hbeq]
      split
      · exact ih a done
      · exact ih b (a :: done)
  cases xs with
  | nil => rfl
  | cons a xs => exact loop xs a []

/-- Renaming commutes with sorting by the new names. -/
theorem map_distinct {f : α → β} (hf : Function.Injective f) (le : β → β → Bool)
    (xs : List α) :
    (distinct (fun a b => le (f a) (f b)) xs).map f = distinct le (xs.map f) := by
  have hsort : (xs.mergeSort fun a b => le (f a) (f b)).map f = (xs.map f).mergeSort le :=
    List.map_mergeSort fun _ _ _ _ => rfl
  rw [distinct, map_eraseReps hf, hsort, distinct]

end Distinct

mutual

/-- The references of the formula are variables with the names in the expression. -/
theorem Expression.LowersTo.allReferences_eq :
    ∀ {e : Expression} {f : Formula}, e.LowersTo [] f →
      ∃ vs : List FormulaVariable,
        f.allReferences = vs.map .variable ∧ vs.map Identifier.text = e.allNames
  | _, _, .scaled _ hr hc => by
    obtain ⟨v, rfl, rfl⟩ := hr.eq_variable
    exact ⟨[v], rfl, rfl⟩
  | _, _, .single _ hp => by
    obtain ⟨vs, hf, he⟩ := hp.allReferences_eq
    refine ⟨vs, hf, ?_⟩
    rw [he, Expression.allNames, Parameter.listNames, Parameter.listNames, List.append_nil]
  | _, _, .sum _ hps => hps.listReferences_eq
  | _, f, .operator hps hf => by
    obtain ⟨vs, hvs, he⟩ := hps.listReferences_eq
    refine ⟨vs, ?_, he⟩
    rw [Formula.allReferences_eq, hf.operands_eq, hvs]

theorem Parameter.LowersTo.allReferences_eq :
    ∀ {scaled : Bool} {p : Parameter} {op : Operand}, p.LowersTo [] scaled op →
      ∃ vs : List FormulaVariable,
        op.allReferences = vs.map .variable ∧ vs.map Identifier.text = p.allNames
  | _, _, _, .reference hr => by
    obtain ⟨v, rfl, rfl⟩ := hr.eq_variable
    exact ⟨[v], rfl, rfl⟩
  | _, _, _, .product _ hr hc => by
    obtain ⟨v, rfl, rfl⟩ := hr.eq_variable
    exact ⟨[v], rfl, rfl⟩
  | _, _, _, .constant _ => ⟨[], rfl, rfl⟩
  | _, _, _, .expression he => he.allReferences_eq

theorem Parameter.AllLowerTo.listReferences_eq :
    ∀ {scaled : Bool} {ps : List Parameter} {ops : List Operand},
      Parameter.AllLowerTo [] scaled ps ops →
        ∃ vs : List FormulaVariable,
          Operand.listReferences ops = vs.map .variable ∧
            vs.map Identifier.text = Parameter.listNames ps
  | _, _, _, .nil => ⟨[], rfl, rfl⟩
  | _, _, _, .cons hp hps => by
    obtain ⟨us, hop, hu⟩ := hp.allReferences_eq
    obtain ⟨vs, hops, hv⟩ := hps.listReferences_eq
    refine ⟨us ++ vs, ?_, ?_⟩
    · rw [Operand.listReferences, hop, hops, List.map_append]
    · rw [List.map_append, hu, hv, Parameter.listNames]

end

/-- A formula looks up the same series as the expression that is lowered to it. -/
theorem Expression.LowersTo.names_eq {e : Expression} {f : Formula} (h : e.LowersTo [] f) :
    f.names = e.seriesNames := by
  obtain ⟨vs, hf, he⟩ := h.allReferences_eq
  have htext : Function.Injective (@Identifier.text .formulaVariable) := by
    rintro ⟨_, _⟩ ⟨_, _⟩ rfl
    rfl
  -- variables are in the order of their texts, among references as well as among names
  calc f.names
      = (distinct Reference.le (vs.map .variable)).map Reference.name := by
        rw [Formula.names, Formula.references, hf]
    _ = (distinct (fun u v => u.text ≤ v.text) vs).map Identifier.text := by
        rw [← map_distinct (fun _ _ => Reference.variable.inj), List.map_map]
        rfl
    _ = distinct (fun a b => a ≤ b) (vs.map Identifier.text) :=
        map_distinct htext (fun a b => a ≤ b) vs
    _ = e.seriesNames := by rw [he, Expression.seriesNames]

/-! ### Main result -/

/-- Lowering preserves meaning: over all inputs and on every grid, formula and expression produce
the same signal or fail in the same way. -/
theorem Formula.signal_eq_of_lower {e : Expression} {f : Formula} (h : e.lower [] = .ok f)
    (inputs : Inputs) (grid : Grid) : f.signal inputs grid = e.signal inputs grid := by
  have hl := Expression.lower_eq_ok_iff.1 h
  rw [Formula.signal, Expression.signal, hl.names_eq]
  exact congrArg _ (funext fun w => hl.eval_eq w)

/-- The difference of `x` and twice `y`, over one hour. -/
theorem Formula.signal_eq_of_lower_sub :
    (Expression.apply (.extension "sub") [.series "x" 1, .series "y" 2]).lower []
        = .ok (.sub (.variable ⟨"x", by decide⟩) (.nested (.mul [.variable ⟨"y", by decide⟩,
            .constant ⟨"2", 2, by decide, by decide, .inl rfl⟩]))) ∧
      (Formula.sub (.variable ⟨"x", by decide⟩) (.nested (.mul [.variable ⟨"y", by decide⟩,
            .constant ⟨"2", 2, by decide, by decide, .inl rfl⟩]))).signal
          [("x", .ofValues "x" "KWH" ⟨3600, by decide, by decide⟩ ⟨0, 0⟩ [5])]
          ⟨⟨⟨0, 0⟩, ⟨3600, 0⟩⟩, ⟨3600, by decide, by decide⟩, 1, by decide, by decide⟩
        = (Expression.apply (.extension "sub") [.series "x" 1, .series "y" 2]).signal
          [("x", .ofValues "x" "KWH" ⟨3600, by decide, by decide⟩ ⟨0, 0⟩ [5])]
          ⟨⟨⟨0, 0⟩, ⟨3600, 0⟩⟩, ⟨3600, by decide, by decide⟩, 1, by decide, by decide⟩ :=
  ⟨rfl, signal_eq_of_lower rfl _ _⟩

end EnergyFormula
