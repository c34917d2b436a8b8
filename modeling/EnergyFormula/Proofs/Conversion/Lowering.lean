import EnergyFormula.Conversion.Lowering
import EnergyFormula.Evaluation.Expression
import EnergyFormula.Proofs.Identifier.Literal
import EnergyFormula.Proofs.Number.Product
import EnergyFormula.Proofs.Outcome

/-!
# The lowering relation

`Expression.LowersTo` says which formula an expression is lowered to, one rule for each form that
an expression can take: a sum of one term, a longer sum, an operator.  `Expression.lower_eq_ok_iff`
says that lowering succeeds exactly by these rules, so that what holds of every lowered expression
is shown by induction over them.
-/

namespace EnergyFormula

/-- The operand that stands for a series: the one bound to its name, or else a variable. -/
def Bindings.Resolves (bindings : Bindings) (name : String) (operand : Operand) : Prop :=
  bindings.lookup name = some operand ∨
    bindings.lookup name = none ∧ ∃ v : FormulaVariable, v.text = name ∧ operand = .variable v

/-- The formula applies the operator with a name to operands, and to as many as it takes. -/
structure Formula.Applies (f : Formula) (name : String) (operands : List Operand) : Prop where
  operator : f.operatorName = name
  operands_eq : f.operands = operands
  count : (DomainFunction.extension name).check operands.length = .ok ()

mutual

/-- The expression is lowered to the formula. -/
inductive Expression.LowersTo (bindings : Bindings) : Expression → Formula → Prop
  /-- A sum of one series with a factor is a product. -/
  | scaled {name : String} {factor : Float} {r : Operand} {c : ConstLiteral} :
    factor ≠ 1 → bindings.Resolves name r → ConstLiteral.ofNumber factor = .ok c →
      Expression.LowersTo bindings (.apply .groupedSum [.series name factor])
        (.mul [r, .constant c])
  /-- A sum of any other term is that term. -/
  | single {p : Parameter} {op : Operand} :
    (∀ name factor, p = .series name factor → factor = 1) → p.LowersTo bindings false op →
      Expression.LowersTo bindings (.apply .groupedSum [p]) (.operand op)
  | sum {ps : List Parameter} {ops : List Operand} :
    2 ≤ ps.length → Parameter.AllLowerTo bindings true ps ops →
      Expression.LowersTo bindings (.apply .groupedSum ps) (.add ops)
  | operator {name : String} {ps : List Parameter} {ops : List Operand} {f : Formula} :
    Parameter.AllLowerTo bindings false ps ops → f.Applies name ops →
      Expression.LowersTo bindings (.apply (.extension name) ps) f

/-- The parameter is lowered to the operand; `scaled` writes every series with its factor. -/
inductive Parameter.LowersTo (bindings : Bindings) : Bool → Parameter → Operand → Prop
  | reference {name : String} {r : Operand} :
    bindings.Resolves name r → Parameter.LowersTo bindings false (.series name 1) r
  | product {scaled : Bool} {name : String} {factor : Float} {r : Operand} {c : ConstLiteral} :
    (scaled = false → factor ≠ 1) → bindings.Resolves name r →
      ConstLiteral.ofNumber factor = .ok c →
      Parameter.LowersTo bindings scaled (.series name factor) (.nested (.mul [r, .constant c]))
  | constant {scaled : Bool} {value : Float} {c : ConstLiteral} :
    ConstLiteral.ofNumber value = .ok c →
      Parameter.LowersTo bindings scaled (.constant value) (.constant c)
  | expression {scaled : Bool} {e : Expression} {f : Formula} :
    e.LowersTo bindings f → Parameter.LowersTo bindings scaled (.expression e) (.nested f)

/-- The parameters are lowered to the operands, one by one. -/
inductive Parameter.AllLowerTo (bindings : Bindings) :
    Bool → List Parameter → List Operand → Prop
  | nil {scaled : Bool} : Parameter.AllLowerTo bindings scaled [] []
  | cons {scaled : Bool} {p : Parameter} {op : Operand} {ps : List Parameter}
      {ops : List Operand} :
    p.LowersTo bindings scaled op → Parameter.AllLowerTo bindings scaled ps ops →
      Parameter.AllLowerTo bindings scaled (p :: ps) (op :: ops)

end

/-! ### Leaves -/

variable {bindings : Bindings} {function : DomainFunction} {index : Nat}

theorem lowerConstant_eq_ok_iff {value : Float} {op : Operand} :
    lowerConstant function index value = .ok op
      ↔ ∃ c, ConstLiteral.ofNumber value = .ok c ∧ op = .constant c := by
  unfold lowerConstant
  cases ConstLiteral.ofNumber value with
  | error e => simp
  | ok c => simp [eq_comm]

theorem lowerReference_eq_ok_iff {name : String} {op : Operand} :
    lowerReference bindings function index name = .ok op ↔ bindings.Resolves name op := by
  unfold lowerReference Bindings.Resolves
  cases bindings.lookup name with
  | some bound => simp
  | none =>
    cases h : Identifier.parse .formulaVariable name with
    | error e =>
      have hv : ∀ v : FormulaVariable, v.text ≠ name := by
        rintro v rfl
        rw [v.parse_text] at h
        cases h
      simp [hv]
    | ok v =>
      have hv := Identifier.parse_eq_ok_iff.1 h
      -- a variable is told by its text
      have huniq : ∀ u : FormulaVariable, u.text = name → u = v := by
        rintro u rfl
        rw [u.parse_text] at h
        exact Except.ok.inj h
      simp only [reduceCtorEq, false_or, true_and, Except.ok.injEq]
      constructor
      · rintro rfl
        exact ⟨v, hv, rfl⟩
      · rintro ⟨u, hu, rfl⟩
        rw [huniq u hu]

/-- Without bindings every series is a variable. -/
theorem Bindings.Resolves.eq_variable {name : String} {op : Operand}
    (h : Bindings.Resolves [] name op) :
    ∃ v : FormulaVariable, v.text = name ∧ op = .variable v := by
  rcases h with h | ⟨_, h⟩
  · cases h
  · exact h

theorem lowerScaled_eq_ok_iff {name : String} {factor : Float} {f : Formula} :
    lowerScaled bindings function index name factor = .ok f
      ↔ ∃ r c, bindings.Resolves name r ∧ ConstLiteral.ofNumber factor = .ok c ∧
          f = .mul [r, .constant c] := by
  simp only [lowerScaled, bind_eq_ok, lowerReference_eq_ok_iff, lowerConstant_eq_ok_iff,
    pure_eq_ok, Except.ok.injEq]
  constructor
  · rintro ⟨r, hr, _, ⟨c, hc, rfl⟩, rfl⟩
    exact ⟨r, c, hr, hc, rfl⟩
  · rintro ⟨r, c, hr, hc, rfl⟩
    exact ⟨r, hr, _, ⟨c, hc, rfl⟩, rfl⟩

/-! ### Operators -/

/-- An operator that is applied to operands is one of six, and it is applied to some operand. -/
theorem Formula.Applies.isOperator {f : Formula} {name : String} {ops : List Operand}
    (h : f.Applies name ops) : DomainFunction.operatorNames.contains name = true := by
  rw [← h.operator]
  cases f <;> rfl

theorem Formula.Applies.operands_ne_nil {f : Formula} {name : String} {ops : List Operand}
    (h : f.Applies name ops) : f.operands ≠ [] := by
  obtain ⟨rfl, rfl, hcount⟩ := h
  intro hnil
  rw [hnil] at hcount
  cases f <;> cases hcount

/-- The operators over a list take any number of operands but none. -/
theorem DomainFunction.check_of_ne_nil {name : String} {ops : List Operand}
    (hname : name = "add" ∨ name = "mul" ∨ name = "div") (hops : ops = [] → False) :
    (extension name).check ops.length = .ok () := by
  obtain ⟨op, rest, rfl⟩ := List.exists_cons_of_ne_nil hops
  rcases hname with rfl | rfl | rfl <;> rfl

theorem operatorFormula_eq_ok_iff {name : String} {ops : List Operand} {f : Formula} :
    operatorFormula name ops = .ok f ↔ f.Applies name ops := by
  constructor
  · intro h
    unfold operatorFormula at h
    -- what is left are the six operators with operands as they demand
    split at h <;> cases h
    case h_4 hne => exact ⟨rfl, rfl, DomainFunction.check_of_ne_nil (.inl rfl) hne⟩
    case h_5 hne => exact ⟨rfl, rfl, DomainFunction.check_of_ne_nil (.inr (.inl rfl)) hne⟩
    case h_6 hne => exact ⟨rfl, rfl, DomainFunction.check_of_ne_nil (.inr (.inr rfl)) hne⟩
    case h_7 => exact ⟨rfl, rfl, rfl⟩
    case h_9 => exact ⟨rfl, rfl, rfl⟩
    case h_11 => exact ⟨rfl, rfl, rfl⟩
  · -- the number of operands rules the empty lists out
    rintro ⟨rfl, rfl, hcount⟩
    cases f with
    | add ops => cases ops with
      | nil => cases hcount
      | cons => rfl
    | mul ops => cases ops with
      | nil => cases hcount
      | cons => rfl
    | div ops => cases ops with
      | nil => cases hcount
      | cons => rfl
    | sub => rfl
    | pos => rfl
    | operand => rfl

/-! ### Sums of one term -/

/-- A sum of one series without a factor is that series. -/
theorem Expression.lowersTo_reference_iff {name : String} {f : Formula} :
    (Expression.apply .groupedSum [.series name 1]).LowersTo bindings f ↔
      ∃ r, bindings.Resolves name r ∧ .operand r = f := by
  constructor
  · rintro (hne | ⟨_, hp⟩ | hlength | _)
    · exact absurd rfl hne
    · cases hp with
      | reference hr => exact ⟨_, hr, rfl⟩
      | product hne => exact absurd rfl (hne rfl)
    · simp at hlength
  · rintro ⟨r, hr, rfl⟩
    exact .single (fun _ _ h => by cases h; rfl) (.reference hr)

/-- With any other factor it is a product. -/
theorem Expression.lowersTo_scaled_iff {name : String} {factor : Float} {f : Formula}
    (hne : factor ≠ 1) :
    (Expression.apply .groupedSum [.series name factor]).LowersTo bindings f ↔
      ∃ r c, bindings.Resolves name r ∧ ConstLiteral.ofNumber factor = .ok c ∧
        f = .mul [r, .constant c] := by
  constructor
  · rintro (⟨_, hr, hc⟩ | ⟨hone, _⟩ | hlength | _)
    · exact ⟨_, _, hr, hc, rfl⟩
    · exact absurd (hone _ _ rfl) hne
    · simp at hlength
  · rintro ⟨r, c, hr, hc, rfl⟩
    exact .scaled hne hr hc

/-- A sum of one term that is no series is that term. -/
theorem Expression.lowersTo_term_iff {p : Parameter} {f : Formula}
    (hp : ∀ name factor, p ≠ .series name factor) :
    (Expression.apply .groupedSum [p]).LowersTo bindings f ↔
      ∃ op, p.LowersTo bindings false op ∧ .operand op = f := by
  constructor
  · rintro (_ | ⟨_, hop⟩ | hlength | _)
    · exact absurd rfl (hp _ _)
    · exact ⟨_, hop, rfl⟩
    · simp at hlength
  · rintro ⟨op, hop, rfl⟩
    exact .single (fun name factor h => absurd h (hp name factor)) hop

/-! ### The rules describe lowering -/

mutual

/-- Lowering succeeds exactly by the rules. -/
theorem Expression.lower_eq_ok_iff :
    ∀ {e : Expression} {f : Formula}, e.lower bindings = .ok f ↔ e.LowersTo bindings f
  | .apply .groupedSum [], f => by
    constructor
    · intro h
      cases h
    · rintro (_ | _ | hlen)
      cases hlen
  | .apply .groupedSum [p], f => by
    rw [Expression.lower, p.lowerAlone_eq_ok_iff]
  | .apply .groupedSum (p :: q :: ps), f => by
    simp only [Expression.lower, bind_eq_ok, pure_eq_ok, Except.ok.injEq,
      Parameter.lowerAll_eq_ok_iff]
    constructor
    · rintro ⟨ops, hops, rfl⟩
      exact .sum (by simp) hops
    · rintro (_ | _ | ⟨_, hops⟩)
      exact ⟨_, hops, rfl⟩
  | .apply (.extension name) ps, f => by
    rw [Expression.lower]
    constructor
    · intro h
      split at h
      · obtain ⟨ops, hops, hf⟩ := bind_eq_ok.1 h
        exact .operator (Parameter.lowerAll_eq_ok_iff.1 hops) (operatorFormula_eq_ok_iff.1 hf)
      · cases h
    · rintro (_ | _ | _ | ⟨hops, hf⟩)
      rw [if_pos hf.isOperator, Parameter.lowerAll_eq_ok_iff.2 hops, ok_bind]
      exact operatorFormula_eq_ok_iff.2 hf
  | .apply .conditionalBranch ps, f
  | .apply .portionAboveThreshold ps, f
  | .apply .portionBelowThreshold ps, f
  | .apply .crossSeriesMax ps, f
  | .apply .crossSeriesMin ps, f
  | .apply .greaterThan ps, f
  | .apply .round ps, f
  | .apply .meteringTypeConversion ps, f
  | .apply .intervalMax ps, f
  | .apply .intervalMin ps, f => by
    -- these functions have no formula, and there is no rule for them
    constructor <;> intro h <;> cases h

theorem Parameter.lowerAlone_eq_ok_iff :
    ∀ {p : Parameter} {f : Formula},
      p.lowerAlone bindings = .ok f ↔ (Expression.apply .groupedSum [p]).LowersTo bindings f
  | .series name factor, f => by
    rw [Parameter.lowerAlone]
    split
    · rename_i hk
      obtain rfl := Number.eq_one_of_beq hk
      simp only [bind_eq_ok, pure_eq_ok, Except.ok.injEq, lowerReference_eq_ok_iff,
        Expression.lowersTo_reference_iff]
    · rename_i hk
      have hne : factor ≠ 1 := by
        rintro rfl
        exact hk rfl
      rw [lowerScaled_eq_ok_iff, Expression.lowersTo_scaled_iff hne]
  | .constant value, f => by
    simp only [Parameter.lowerAlone, bind_eq_ok, pure_eq_ok, Except.ok.injEq,
      lowerConstant_eq_ok_iff,
      Expression.lowersTo_term_iff (p := .constant value) fun _ _ h => by cases h]
    constructor
    · rintro ⟨_, ⟨c, hc, rfl⟩, rfl⟩
      exact ⟨_, .constant hc, rfl⟩
    · rintro ⟨_, hp, rfl⟩
      cases hp with
      | constant hc => exact ⟨_, ⟨_, hc, rfl⟩, rfl⟩
  | .expression e, f => by
    simp only [Parameter.lowerAlone, bind_eq_ok, pure_eq_ok, Except.ok.injEq, e.lower_eq_ok_iff,
      Expression.lowersTo_term_iff (p := .expression e) fun _ _ h => by cases h]
    constructor
    · rintro ⟨g, hg, rfl⟩
      exact ⟨_, .expression hg, rfl⟩
    · rintro ⟨_, hp, rfl⟩
      cases hp with
      | expression hg => exact ⟨_, hg, rfl⟩
  | .literal s, f => by
    rw [Expression.lowersTo_term_iff (p := .literal s) fun _ _ h => by cases h]
    constructor
    · intro h
      cases h
    · rintro ⟨_, hp, _⟩
      cases hp

theorem Parameter.lower_eq_ok_iff {scaled : Bool} :
    ∀ {function : DomainFunction} {index : Nat} {p : Parameter} {op : Operand},
      p.lower bindings scaled function index = .ok op ↔ p.LowersTo bindings scaled op
  | _, _, .series name factor, op => by
    rw [Parameter.lower]
    split
    · -- a series stands for itself where its factor may be left out
      rename_i hk
      obtain ⟨hscaled, hk⟩ := Bool.and_eq_true_iff.1 hk
      obtain rfl := Number.eq_one_of_beq hk
      obtain rfl : scaled = false := by simpa using hscaled
      rw [lowerReference_eq_ok_iff]
      constructor
      · exact .reference
      · rintro (hr | hne)
        · exact hr
        · exact absurd rfl (hne rfl)
    · rename_i hk
      have hne : scaled = false → factor ≠ 1 := by
        rintro rfl rfl
        exact hk rfl
      simp only [bind_eq_ok, pure_eq_ok, Except.ok.injEq, lowerScaled_eq_ok_iff]
      constructor
      · rintro ⟨_, ⟨r, c, hr, hc, rfl⟩, rfl⟩
        exact .product hne hr hc
      · rintro (hr | ⟨_, hr, hc⟩)
        · exact absurd rfl (hne rfl)
        · exact ⟨_, ⟨_, _, hr, hc, rfl⟩, rfl⟩
  | _, _, .constant value, op => by
    rw [Parameter.lower, lowerConstant_eq_ok_iff]
    constructor
    · rintro ⟨c, hc, rfl⟩
      exact .constant hc
    · rintro (_ | _ | hc)
      exact ⟨_, hc, rfl⟩
  | _, _, .expression e, op => by
    simp only [Parameter.lower, bind_eq_ok, pure_eq_ok, Except.ok.injEq, e.lower_eq_ok_iff]
    constructor
    · rintro ⟨f, hf, rfl⟩
      exact .expression hf
    · rintro (_ | _ | _ | hf)
      exact ⟨_, hf, rfl⟩
  | _, _, .literal s, op => by
    constructor <;> intro h <;> cases h

theorem Parameter.lowerAll_eq_ok_iff {scaled : Bool} :
    ∀ {function : DomainFunction} {index : Nat} {ps : List Parameter} {ops : List Operand},
      Parameter.lowerAll bindings scaled function index ps = .ok ops
        ↔ Parameter.AllLowerTo bindings scaled ps ops
  | _, _, [], ops => by
    constructor
    · rintro ⟨⟩
      exact .nil
    · rintro ⟨⟩
      rfl
  | _, _, p :: ps, ops => by
    simp only [Parameter.lowerAll, bind_eq_ok, pure_eq_ok, Except.ok.injEq, p.lower_eq_ok_iff,
      Parameter.lowerAll_eq_ok_iff]
    constructor
    · rintro ⟨op, hp, rest, hps, rfl⟩
      exact .cons hp hps
    · rintro (_ | ⟨hp, hps⟩)
      exact ⟨_, hp, _, hps, rfl⟩

end

theorem Parameter.AllLowerTo.length_eq {scaled : Bool} :
    ∀ {ps : List Parameter} {ops : List Operand},
      Parameter.AllLowerTo bindings scaled ps ops → ops.length = ps.length
  | _, _, .nil => rfl
  | _, _, .cons _ h => by rw [List.length_cons, List.length_cons, h.length_eq]

end EnergyFormula
