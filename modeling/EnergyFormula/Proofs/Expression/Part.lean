import EnergyFormula.Expression.Basic

/-!
# The parts of an expression

An `Expression.Part` of an expression is the expression itself or a part of an expression among its
parameters, so what holds of every part holds of the expression and of the parts of its parameters
(`Expression.forall_part_iff`).  What passes from the nested expressions of a function to the
function holds of every expression (`Expression.induction`).
-/

namespace EnergyFormula

/-- The first expression occurs in the second one, at any depth. -/
inductive Expression.Part : Expression → Expression → Prop
  | self (e : Expression) : Part e e
  | nested {e g : Expression} {function : DomainFunction} {ps : List Parameter} :
      Part e g → Parameter.expression g ∈ ps → Part e (.apply function ps)

namespace Expression

theorem Part.of_parameter {e g h : Expression} (hpart : Part h g)
    (hmem : Parameter.expression g ∈ e.parameters) : Part h e := by
  cases e with
  | apply function ps => exact .nested hpart hmem

theorem forall_part_iff {P : Expression → Prop} {e : Expression} :
    (∀ g, Part g e → P g) ↔
      P e ∧ ∀ h, Parameter.expression h ∈ e.parameters → ∀ g, Part g h → P g := by
  constructor
  · intro h
    exact ⟨h e (.self e), fun g hg k hk => h k (hk.of_parameter hg)⟩
  · rintro ⟨he, hnested⟩ g hg
    cases hg with
    | self => exact he
    | nested hpart hmem => exact hnested _ hmem g hpart

end Expression

/-! ### Induction -/

section Induction

variable {P : Expression → Prop}

mutual

private theorem induction_expression
    (step : ∀ function ps, (∀ e, Parameter.expression e ∈ ps → P e) → P (.apply function ps)) :
    ∀ e, P e
  | .apply function ps => step function ps (induction_parameters step ps)

private theorem induction_parameter
    (step : ∀ function ps, (∀ e, Parameter.expression e ∈ ps → P e) → P (.apply function ps)) :
    ∀ (p : Parameter) (e : Expression), p = .expression e → P e
  | .expression e, _, rfl => induction_expression step e

private theorem induction_parameters
    (step : ∀ function ps, (∀ e, Parameter.expression e ∈ ps → P e) → P (.apply function ps)) :
    ∀ (ps : List Parameter) (e : Expression), Parameter.expression e ∈ ps → P e
  | p :: ps, e, he => by
    rcases List.mem_cons.1 he with h | h
    · exact induction_parameter step p e h.symm
    · exact induction_parameters step ps e h

end

/-- What passes from the nested expressions of a function to the function holds of every
expression. -/
theorem Expression.induction
    (step : ∀ function ps, (∀ e, Parameter.expression e ∈ ps → P e) → P (.apply function ps))
    (e : Expression) : P e :=
  induction_expression step e

end Induction

end EnergyFormula
