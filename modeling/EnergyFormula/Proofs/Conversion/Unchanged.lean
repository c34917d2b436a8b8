import EnergyFormula.Proofs.Conversion.Lifting
import EnergyFormula.Proofs.Expression.Part

/-!
# Expressions that come back unchanged

An expression that is lowered and lifted again need not come back as it was: `add` and `operand`
become sums, a sum of one series with a factor becomes a reference where it is nested, and so does a
product of a series and a constant.  These are the only changes.

* `Operand.lift_nested_eq_expression_iff`: a nested formula is lifted to a nested expression unless
  it is a scaled series.
* `Expression.LowersTo.lift_nested_eq_iff`: where it is nested, an expression comes back unchanged
  exactly if it is plain.
* `Expression.lift_of_lower`: at the root it does exactly if it is canonical, as every sum of series
  is.
-/

namespace EnergyFormula

/-! ### Canonical expressions -/

namespace Expression

/-- A sum of one series, with a factor other than one. -/
def IsScaledSum (e : Expression) : Prop :=
  ∃ name factor, e = .apply .groupedSum [.series name factor] ∧ factor ≠ 1

/-- A product of exactly a series and a constant. -/
def IsScaledProduct (e : Expression) : Prop :=
  ∃ name factor value, e = .apply (.extension "mul") [.series name factor, .constant value]

end Expression

/-- The functions that formulas are lifted to. -/
def DomainFunction.canonical : List DomainFunction :=
  [.groupedSum, .extension "sub", .extension "mul", .extension "div", .extension "pos"]

/-- At every depth the expression is built from the canonical functions, it has no product of a
series and a constant, and below its root no sum of one series with a factor. -/
structure Expression.IsCanonical (e : Expression) : Prop where
  functions : ∀ g, Part g e → g.function ∈ DomainFunction.canonical
  products : ∀ g, Part g e → ¬ g.IsScaledProduct
  sums : ∀ h, Parameter.expression h ∈ e.parameters → ∀ g, Part g h → ¬ g.IsScaledSum

/-- At every depth, its root included, the expression is built from the canonical functions, and it
is neither a sum of one series with a factor nor a product of a series and a constant. -/
def Expression.IsPlain (e : Expression) : Prop :=
  ∀ g, Part g e → g.function ∈ DomainFunction.canonical ∧ ¬ g.IsScaledSum ∧ ¬ g.IsScaledProduct

theorem Expression.isPlain_iff {e : Expression} :
    e.IsPlain ↔ (e.function ∈ DomainFunction.canonical ∧ ¬ e.IsScaledSum ∧ ¬ e.IsScaledProduct) ∧
      ∀ g, Parameter.expression g ∈ e.parameters → g.IsPlain :=
  forall_part_iff

/-- An expression is plain if it is canonical and not itself a sum of one series with a factor. -/
theorem Expression.isPlain_iff_isCanonical {e : Expression} (h : ¬ e.IsScaledSum) :
    e.IsPlain ↔ e.IsCanonical := by
  constructor
  · intro hplain
    exact ⟨fun g hg => (hplain g hg).1, fun g hg => (hplain g hg).2.2,
      fun k hk g hg => (hplain g (hg.of_parameter hk)).2.1⟩
  · rintro ⟨hfunctions, hproducts, hsums⟩ g hg
    have hsum : ¬ g.IsScaledSum := forall_part_iff.2 ⟨h, hsums⟩ g hg
    exact ⟨hfunctions g hg, hsum, hproducts g hg⟩

/-- An application of any other function is plain if the function is canonical, its parameters are
not a series and a constant under `mul`, and they are plain. -/
theorem Expression.isPlain_extension_iff {name : String} {ps : List Parameter} :
    (Expression.apply (.extension name) ps).IsPlain ↔
      (.extension name ∈ DomainFunction.canonical ∧
        ¬ (Expression.apply (.extension name) ps).IsScaledProduct) ∧
          ∀ g, Parameter.expression g ∈ ps → g.IsPlain := by
  have hsum : ¬ (Expression.apply (.extension name) ps).IsScaledSum := by
    rintro ⟨_, _, h, _⟩
    cases h
  rw [isPlain_iff, and_iff_right hsum]
  rfl

/-! ### Scaled series -/

/-- The formula is lifted to one reference. -/
def Formula.IsScaledSeries (f : Formula) : Prop :=
  ∃ op c name factor, f.IsScaled op c name factor

theorem Formula.IsScaled.lift_nested_eq {f : Formula} {op : Operand} {c : ConstLiteral}
    {name : String} {factor : Float} (h : f.IsScaled op c name factor) :
    (Operand.nested f).lift = .series name (factor * c.value) := by
  obtain ⟨rfl, hop⟩ := h
  rw [Operand.lift, Operand.scaledSeries?, hop]

/-- A nested formula is lifted to a nested expression unless it is lifted to a reference. -/
theorem Operand.lift_nested_eq_expression_iff {f : Formula} {e : Expression} :
    (Operand.nested f).lift = .expression e ↔ f.lift = e ∧ ¬ f.IsScaledSeries := by
  by_cases hscaled : f.IsScaledSeries
  · refine iff_of_false (fun h => ?_) fun h => h.2 hscaled
    obtain ⟨_, _, _, _, hs⟩ := hscaled
    rw [hs.lift_nested_eq] at h
    cases h
  · rw [and_iff_left hscaled]
    rcases lift_nested f with ⟨_, _, _, _, hs, _⟩ | hlift
    · exact absurd ⟨_, _, _, _, hs⟩ hscaled
    · rw [hlift, Parameter.expression.injEq]

theorem Operand.lift_eq_constant {op : Operand} {value : Float} (h : op.lift = .constant value) :
    ∃ c, op = .constant c := by
  cases op with
  | constant c => exact ⟨c, rfl⟩
  | nested f =>
    rcases lift_nested f with ⟨_, _, _, _, _, hlift⟩ | hlift <;> rw [hlift] at h <;> cases h
  | _ => cases h

/-- A formula is a scaled series exactly if its operands are lifted to a series and a constant,
under the function `mul`. -/
theorem Formula.isScaledSeries_iff {f : Formula} :
    f.IsScaledSeries ↔
      (Expression.apply (.extension f.operatorName)
        (Operand.liftAll f.operands)).IsScaledProduct := by
  constructor
  · rintro ⟨op, c, name, factor, rfl, hop⟩
    refine ⟨name, factor, c.value, ?_⟩
    rw [operands, Operand.liftAll, hop]
    rfl
  · rintro ⟨name, factor, value, h⟩
    obtain ⟨hfunction, hoperands⟩ := Expression.apply.inj h
    cases f with
    | mul ops =>
      -- two operands, of which the second one is lifted to a constant
      obtain _ | ⟨a, _ | ⟨b, _ | ⟨d, rest⟩⟩⟩ := ops <;>
        simp only [operands, Operand.liftAll, List.cons.injEq, reduceCtorEq, and_true,
          and_false] at hoperands
      obtain ⟨ha, hb⟩ := hoperands
      obtain ⟨c, rfl⟩ := Operand.lift_eq_constant hb
      exact ⟨a, c, name, factor, rfl, ha⟩
    | _ =>
      have hname : _ = "mul" := DomainFunction.extension.inj hfunction
      simp [operatorName] at hname

theorem Formula.liftedFunction_eq_iff {f : Formula} :
    f.liftedFunction = .extension f.operatorName ↔
      .extension f.operatorName ∈ DomainFunction.canonical := by
  cases f <;> simp [liftedFunction, operatorName, DomainFunction.canonical]

/-- A nested formula is lifted to its operator, applied to its lifted operands, if that is a
canonical function and not the product of a series and a constant. -/
theorem Operand.lift_nested_eq_apply_iff {f : Formula} {ps : List Parameter} :
    (Operand.nested f).lift = .expression (.apply (.extension f.operatorName) ps) ↔
      (.extension f.operatorName ∈ DomainFunction.canonical ∧
        ¬ (Expression.apply (.extension f.operatorName) ps).IsScaledProduct) ∧
          liftAll f.operands = ps := by
  rw [lift_nested_eq_expression_iff]
  have hproduct := f.isScaledSeries_iff
  by_cases hscaled : f.IsScaledSeries
  · refine iff_of_false (fun h => h.2 hscaled) ?_
    rintro ⟨⟨_, hnot⟩, rfl⟩
    exact hnot (hproduct.1 hscaled)
  · rw [and_iff_left hscaled]
    rcases f.lift_eq with ⟨_, _, _, _, hs⟩ | hlift
    · exact absurd ⟨_, _, _, _, hs⟩ hscaled
    · rw [hlift, Expression.apply.injEq, Formula.liftedFunction_eq_iff]
      refine and_congr_left fun hops => (and_iff_left ?_).symm
      rw [← hops, ← hproduct]
      exact hscaled

/-! ### What is lowered is lifted again -/

section Sums

variable {ps : List Parameter}

theorem Expression.not_isScaledProduct_groupedSum :
    ¬ (Expression.apply .groupedSum ps).IsScaledProduct := by
  rintro ⟨_, _, _, h⟩
  cases h

/-- A sum that is not one of a single series with a factor is plain if its terms are. -/
theorem Expression.isPlain_groupedSum_iff (h : ∀ name factor, ps = [.series name factor] → factor = 1) :
    (Expression.apply .groupedSum ps).IsPlain ↔
      ∀ g, Parameter.expression g ∈ ps → g.IsPlain := by
  have hsum : ¬ (Expression.apply .groupedSum ps).IsScaledSum := by
    rintro ⟨name, factor, heq, hne⟩
    exact hne (h name factor (apply.inj heq).2)
  rw [isPlain_iff]
  exact and_iff_right ⟨List.mem_cons_self, hsum, not_isScaledProduct_groupedSum⟩

end Sums

mutual

/-- Where it is nested, an expression comes back unchanged exactly if it is plain. -/
theorem Expression.LowersTo.lift_nested_eq_iff :
    ∀ {e : Expression} {f : Formula}, e.LowersTo [] f →
      ((Operand.nested f).lift = .expression e ↔ e.IsPlain)
  | _, _, .scaled hne hr _ => by
    obtain ⟨v, rfl, rfl⟩ := hr.eq_variable
    refine iff_of_false nofun fun hplain => ?_
    exact (hplain _ (.self _)).2.1 ⟨_, _, rfl, hne⟩
  | .apply .groupedSum [p], .operand op, .single hone hp => by
    have hterm : (∀ g, p = .expression g → g.IsPlain) ↔
        ∀ g, Parameter.expression g ∈ [p] → g.IsPlain := by
      simp only [List.mem_singleton, eq_comm]
    rw [Expression.isPlain_groupedSum_iff fun name factor h => hone name factor (List.cons.inj h).1,
      ← hterm, ← hp.lift_eq_iff]
    show Parameter.expression (.apply .groupedSum [op.lift]) = _ ↔ _
    simp
  | .apply .groupedSum ps, .add ops, .sum hlen hps => by
    have hlong : ∀ name factor, ps = [Parameter.series name factor] → factor = 1 := by
      rintro name factor rfl
      simp at hlen
    rw [Expression.isPlain_groupedSum_iff hlong, ← hps.liftAll_eq_iff]
    show Parameter.expression (.apply .groupedSum (Operand.liftAll ops)) = _ ↔ _
    simp
  | .apply (.extension name) ps, f, .operator hps hf => by
    have hterms := hps.liftAll_eq_iff
    rw [← hf.operands_eq] at hterms
    obtain rfl := hf.operator
    rw [Operand.lift_nested_eq_apply_iff, Expression.isPlain_extension_iff, hterms]

theorem Parameter.LowersTo.lift_eq_iff :
    ∀ {scaled : Bool} {p : Parameter} {op : Operand}, p.LowersTo [] scaled op →
      (op.lift = p ↔ ∀ g, p = .expression g → g.IsPlain)
  | _, _, _, .reference hr => by
    obtain ⟨v, rfl, rfl⟩ := hr.eq_variable
    exact iff_of_true rfl nofun
  | _, _, _, .product _ hr hc => by
    obtain ⟨v, rfl, rfl⟩ := hr.eq_variable
    refine iff_of_true ?_ nofun
    -- the factor of a variable is one
    show Parameter.series v.text (1 * _) = _
    rw [Number.one_mul, ConstLiteral.value_of_ofNumber hc]
  | _, _, _, .constant hc => by
    refine iff_of_true ?_ nofun
    rw [Operand.lift, ConstLiteral.value_of_ofNumber hc]
  | _, _, _, .expression he => by
    rw [he.lift_nested_eq_iff]
    constructor
    · rintro hplain _ ⟨⟩
      exact hplain
    · intro h
      exact h _ rfl

theorem Parameter.AllLowerTo.liftAll_eq_iff :
    ∀ {scaled : Bool} {ps : List Parameter} {ops : List Operand},
      Parameter.AllLowerTo [] scaled ps ops →
        (Operand.liftAll ops = ps ↔ ∀ g, Parameter.expression g ∈ ps → g.IsPlain)
  | _, _, _, .nil => iff_of_true rfl fun _ => nofun
  | _, _, _, .cons hp hps => by
    rw [Operand.liftAll, List.cons.injEq, hp.lift_eq_iff, hps.liftAll_eq_iff]
    simp only [List.mem_cons, or_imp, forall_and, eq_comm]

end

/-! ### Main result -/

/-- A sum of one series with a factor comes back from the product that it is lowered to. -/
theorem Expression.LowersTo.lift_eq_of_isScaledSum {e : Expression} {f : Formula}
    (h : e.LowersTo [] f) (hsum : e.IsScaledSum) : f.lift = e := by
  obtain ⟨name, factor, rfl, hne⟩ := hsum
  obtain ⟨r, c, hr, hc, rfl⟩ := (lowersTo_scaled_iff hne).1 h
  obtain ⟨v, rfl, rfl⟩ := hr.eq_variable
  have hscaled : (Formula.mul [.variable v, .constant c]).IsScaled (.variable v) c v.text 1 :=
    ⟨rfl, rfl⟩
  rw [hscaled.lift_eq, Number.one_mul, ConstLiteral.value_of_ofNumber hc]

/-- Nothing else that comes back is lowered to a scaled series. -/
theorem Expression.LowersTo.isScaledSum_of_lift_eq {e : Expression} {f : Formula}
    (h : e.LowersTo [] f) (hlift : f.lift = e) (hscaled : f.IsScaledSeries) : e.IsScaledSum := by
  obtain ⟨op, c, name, factor, hs⟩ := hscaled
  rw [hs.lift_eq] at hlift
  subst hlift
  cases h with
  | scaled hne _ _ => exact ⟨_, _, rfl, hne⟩
  | single _ _ => cases hs.eq_mul
  | sum hlen _ => simp at hlen

namespace Expression

theorem isCanonical_groupedSum {ps : List Parameter}
    (h : ∀ g, Parameter.expression g ∉ ps) : (apply .groupedSum ps).IsCanonical where
  functions := forall_part_iff.2 ⟨List.mem_cons_self, fun g hg => absurd hg (h g)⟩
  products := forall_part_iff.2 ⟨not_isScaledProduct_groupedSum, fun g hg => absurd hg (h g)⟩
  sums g hg := absurd hg (h g)

/-- An expression that is lowered comes back unchanged exactly if it is canonical, and every sum of
series does. -/
theorem lift_of_lower {e : Expression} {f : Formula} (h : e.lower [] = .ok f) :
    (f.lift = e ↔ e.IsCanonical) ∧ ∀ terms, e = .groupedSum terms → f.lift = e := by
  have hl := lower_eq_ok_iff.1 h
  have hiff : f.lift = e ↔ e.IsCanonical := by
    by_cases hsum : e.IsScaledSum
    · refine iff_of_true (hl.lift_eq_of_isScaledSum hsum) ?_
      obtain ⟨name, factor, rfl, _⟩ := hsum
      exact isCanonical_groupedSum (by simp)
    · -- the root is nothing special
      rw [← isPlain_iff_isCanonical hsum, ← hl.lift_nested_eq_iff,
        Operand.lift_nested_eq_expression_iff]
      exact (and_iff_left_of_imp fun hlift hscaled =>
        hsum (hl.isScaledSum_of_lift_eq hlift hscaled)).symm
  refine ⟨hiff, ?_⟩
  rintro terms rfl
  refine hiff.2 (isCanonical_groupedSum fun g hg => ?_)
  obtain ⟨⟨name, factor⟩, _, hterm⟩ := List.mem_map.1 hg
  cases hterm

/-- Twice the absolute value of a sum, less a quotient of two series, each with a factor. -/
def mixed : Expression :=
  .apply (.extension "sub")
    [.expression (.apply (.extension "mul")
      [.expression (.apply (.extension "pos")
        [.expression (.apply .groupedSum [.series "x" 2, .series "y" 1])]), .constant 2]),
      .expression (.apply (.extension "div") [.series "x" 3, .series "y" 1])]

theorem isPlain_mixed : mixed.IsPlain := by
  have hsum : (apply .groupedSum [.series "x" 2, .series "y" 1]).IsPlain :=
    (isPlain_groupedSum_iff (by simp)).2 (by simp)
  have hpos : (apply (.extension "pos")
      [.expression (.apply .groupedSum [.series "x" 2, .series "y" 1])]).IsPlain :=
    isPlain_extension_iff.2 ⟨⟨by decide, by simp [IsScaledProduct]⟩, by simpa using hsum⟩
  have hproduct : (apply (.extension "mul") [.expression (.apply (.extension "pos")
      [.expression (.apply .groupedSum [.series "x" 2, .series "y" 1])]), .constant 2]).IsPlain :=
    isPlain_extension_iff.2 ⟨⟨by decide, by simp [IsScaledProduct]⟩, by simpa using hpos⟩
  have hquotient : (apply (.extension "div") [.series "x" 3, .series "y" 1]).IsPlain :=
    isPlain_extension_iff.2 ⟨⟨by decide, by simp [IsScaledProduct]⟩, by simp⟩
  refine isPlain_extension_iff.2 ⟨⟨by decide, by simp [IsScaledProduct]⟩, ?_⟩
  simpa using ⟨hproduct, hquotient⟩

/-- The expression is lowered and comes back. -/
theorem lift_of_lower_mixed :
    ∃ f, mixed.lower [] = .ok f ∧ mixed.IsCanonical ∧ f.lift = mixed := by
  have hcanonical : mixed.IsCanonical :=
    (isPlain_iff_isCanonical (by simp [mixed, IsScaledSum])).1 isPlain_mixed
  obtain ⟨f, hf⟩ : ∃ f, mixed.lower [] = .ok f := ⟨_, rfl⟩
  exact ⟨f, hf, hcanonical, (lift_of_lower hf).1.2 hcanonical⟩

end Expression

end EnergyFormula
