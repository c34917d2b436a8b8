import EnergyFormula.Proofs.Conversion.Lowering
import EnergyFormula.Proofs.Formula.Part

/-!
# Bindings as a substitution

`Formula.substitute` puts operands in the place of variables.  An expression that is lowered without
bindings is lowered with any bindings too, to the formula in which every bound variable is replaced
by its operand (`Expression.lower_eq_substitute`).  The replacement is simultaneous: the operand
that comes in stands there as it is bound, also if it holds bound variables itself.
-/

namespace EnergyFormula

mutual

/-- The formula with every bound variable replaced by its operand, at every depth. -/
def Formula.substitute (bindings : Bindings) : Formula → Formula
  | .add ops => .add (Operand.substituteAll bindings ops)
  | .sub a b => .sub (a.substitute bindings) (b.substitute bindings)
  | .mul ops => .mul (Operand.substituteAll bindings ops)
  | .div ops => .div (Operand.substituteAll bindings ops)
  | .pos op => .pos (op.substitute bindings)
  | .operand op => .operand (op.substitute bindings)

/-- The operand of a bound variable; in a nested formula its bound variables are replaced. -/
def Operand.substitute (bindings : Bindings) : Operand → Operand
  | .variable v => (bindings.lookup v.text).getD (.variable v)
  | .nested f => .nested (f.substitute bindings)
  | .meter m => .meter m
  | .constant c => .constant c

/-- The replacement in several operands. -/
def Operand.substituteAll (bindings : Bindings) : List Operand → List Operand
  | [] => []
  | op :: rest => op.substitute bindings :: Operand.substituteAll bindings rest

end

/-- The operand at a place: the first number selects an operand of the formula, and the others lead
on through nested formulas. -/
def Formula.operandAt? : Formula → List Nat → Option Operand
  | _, [] => none
  | f, [i] => f.operands[i]?
  | f, i :: rest =>
    match f.operands[i]? with
    | some (.nested g) => g.operandAt? rest
    | _ => none

variable {bindings : Bindings}

/-! ### What a substitution keeps -/

theorem Operand.substituteAll_eq_map {ops : List Operand} :
    substituteAll bindings ops = ops.map (substitute bindings) := by
  induction ops with
  | nil => rfl
  | cons op rest ih => rw [substituteAll, ih, List.map_cons]

@[simp] theorem Formula.operatorName_substitute (f : Formula) :
    (f.substitute bindings).operatorName = f.operatorName := by
  cases f <;> rfl

@[simp] theorem Formula.operands_substitute (f : Formula) :
    (f.substitute bindings).operands = f.operands.map (Operand.substitute bindings) := by
  cases f <;> simp [Formula.substitute, Formula.operands, Operand.substituteAll_eq_map]

/-- Every operand stays in its place, replaced or with the replacement inside. -/
theorem Formula.operandAt?_substitute :
    ∀ {path : List Nat} {f : Formula} {op : Operand},
      f.operandAt? path = some op →
        (f.substitute bindings).operandAt? path = some (op.substitute bindings)
  | [i], f, op, h => by
    rw [Formula.operandAt?] at h
    simp [Formula.operandAt?, h]
  | i :: j :: rest, f, op, h => by
    rw [Formula.operandAt?] at h
    · split at h
      · rename_i g hg
        simp [Formula.operandAt?, hg, Operand.substitute, Formula.operandAt?_substitute h]
      · cases h
    · simp

/-! ### Lowering -/

/-- What stands for a series with bindings is what they put for its variable. -/
theorem Bindings.Resolves.substitute {name : String} {r : Operand}
    (h : Bindings.Resolves [] name r) : bindings.Resolves name (r.substitute bindings) := by
  obtain ⟨v, rfl, rfl⟩ := h.eq_variable
  rw [Operand.substitute]
  cases hb : bindings.lookup v.text with
  | some op => exact .inl hb
  | none => exact .inr ⟨hb, v, rfl, rfl⟩

theorem Formula.Applies.substitute {f : Formula} {name : String} {ops : List Operand}
    (h : f.Applies name ops) :
    (f.substitute bindings).Applies name (Operand.substituteAll bindings ops) where
  operator := by rw [operatorName_substitute, h.operator]
  operands_eq := by rw [operands_substitute, h.operands_eq, Operand.substituteAll_eq_map]
  count := by
    rw [Operand.substituteAll_eq_map, List.length_map]
    exact h.count

mutual

/-- A rule that applies without bindings applies with them, to the substituted operands. -/
theorem Expression.LowersTo.substitute :
    ∀ {e : Expression} {f : Formula}, e.LowersTo [] f → e.LowersTo bindings (f.substitute bindings)
  | _, _, .scaled hne hr hc => .scaled hne hr.substitute hc
  | _, _, .single hone hp => .single hone hp.substitute
  | _, _, .sum hlen hps => .sum hlen hps.substitute
  | _, _, .operator hps hf => .operator hps.substitute hf.substitute

theorem Parameter.LowersTo.substitute :
    ∀ {scaled : Bool} {p : Parameter} {op : Operand},
      p.LowersTo [] scaled op → p.LowersTo bindings scaled (op.substitute bindings)
  | _, _, _, .reference hr => .reference hr.substitute
  | _, _, _, .product hne hr hc => .product hne hr.substitute hc
  | _, _, _, .constant hc => .constant hc
  | _, _, _, .expression he => .expression he.substitute

theorem Parameter.AllLowerTo.substitute :
    ∀ {scaled : Bool} {ps : List Parameter} {ops : List Operand},
      Parameter.AllLowerTo [] scaled ps ops →
        Parameter.AllLowerTo bindings scaled ps (Operand.substituteAll bindings ops)
  | _, _, _, .nil => .nil
  | _, _, _, .cons hp hps => .cons hp.substitute hps.substitute

end

/-- What is lowered without bindings is lowered with any, and the bindings are substituted: in the
place of a bound variable stands its operand, which is not substituted in again. -/
theorem Expression.lower_eq_substitute {e : Expression} {f : Formula} (h : e.lower [] = .ok f)
    (bindings : Bindings) :
    e.lower bindings = .ok (f.substitute bindings) ∧
      ∀ path v op, f.operandAt? path = some (.variable v) → bindings.lookup v.text = some op →
        (f.substitute bindings).operandAt? path = some op := by
  refine ⟨lower_eq_ok_iff.2 (lower_eq_ok_iff.1 h).substitute, ?_⟩
  intro path v op hv hop
  rw [Formula.operandAt?_substitute hv, Operand.substitute, hop, Option.getD_some]

/-- The variable `y`. -/
def FormulaVariable.y : FormulaVariable :=
  ⟨"y", by decide⟩

/-- The bindings that exchange two series. -/
def Bindings.exchange : Bindings :=
  [("x", .variable .y), ("y", .variable .x)]

/-- The difference of a series and a nested term. -/
def Expression.nestedDifference : Expression :=
  .apply (.extension "sub") [.series "x" 1, .expression (.apply .groupedSum [.series "y" 1])]

theorem Expression.lower_exchange :
    nestedDifference.lower [] = .ok (.sub (.variable .x) (.nested (.operand (.variable .y)))) ∧
      nestedDifference.lower Bindings.exchange =
        .ok (.sub (.variable .y) (.nested (.operand (.variable .x)))) ∧
      ((Formula.sub (.variable .x) (.nested (.operand (.variable .y)))).substitute
        Bindings.exchange).operandAt? [1, 0] = some (.variable .x) :=
  have h : nestedDifference.lower [] =
      .ok (.sub (.variable .x) (.nested (.operand (.variable .y)))) := rfl
  ⟨h, (lower_eq_substitute h Bindings.exchange).1,
    (lower_eq_substitute h Bindings.exchange).2 [1, 0] .y (.variable .x) rfl rfl⟩

end EnergyFormula
