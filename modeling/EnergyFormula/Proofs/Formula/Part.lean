import EnergyFormula.Formula.Basic

/-!
# The parts of a formula

A `Formula.Part` of a formula is the formula itself or a part of a nested operand.  What passes from
the nested operands of a formula to the formula holds of every formula (`Formula.induction`), and a
part refers to no other series than the whole (`Formula.Part.mem_allReferences`).  A formula of
which every part has an operand is `Formula.HasOperands`.
-/

namespace EnergyFormula

namespace Formula

/-- The first formula occurs in the second one, at any depth. -/
inductive Part : Formula → Formula → Prop
  | self (f : Formula) : Part f f
  | nested {f g h : Formula} : Part h g → Operand.nested g ∈ f.operands → Part h f

end Formula

/-! ### Induction -/

section Induction

variable {P : Formula → Prop}

mutual

private theorem induction_formula (step : ∀ f, (∀ g, Operand.nested g ∈ f.operands → P g) → P f) :
    ∀ f, P f
  | .add ops => step _ (induction_operands step ops)
  | .sub a b => step _ fun g hg => by
    rcases List.mem_cons.1 hg with h | h
    · exact induction_operand step a g h.symm
    · exact induction_operand step b g (List.mem_singleton.1 h).symm
  | .mul ops => step _ (induction_operands step ops)
  | .div ops => step _ (induction_operands step ops)
  | .pos op => step _ fun g hg => induction_operand step op g (List.mem_singleton.1 hg).symm
  | .operand op => step _ fun g hg => induction_operand step op g (List.mem_singleton.1 hg).symm

private theorem induction_operand (step : ∀ f, (∀ g, Operand.nested g ∈ f.operands → P g) → P f) :
    ∀ (op : Operand) (g : Formula), op = .nested g → P g
  | .nested f, _, rfl => induction_formula step f

private theorem induction_operands (step : ∀ f, (∀ g, Operand.nested g ∈ f.operands → P g) → P f) :
    ∀ (ops : List Operand) (g : Formula), Operand.nested g ∈ ops → P g
  | op :: ops, g, hg => by
    rcases List.mem_cons.1 hg with h | h
    · exact induction_operand step op g h.symm
    · exact induction_operands step ops g h

end

/-- What passes from the nested operands of a formula to the formula holds of every formula. -/
theorem Formula.induction (step : ∀ f, (∀ g, Operand.nested g ∈ f.operands → P g) → P f)
    (f : Formula) : P f :=
  induction_formula step f

end Induction

/-! ### References of parts -/

/-- The references of a formula are those of its operands. -/
theorem Formula.allReferences_eq (f : Formula) :
    f.allReferences = Operand.listReferences f.operands := by
  cases f <;> simp [Formula.allReferences, Formula.operands, Operand.listReferences]

theorem Operand.mem_listReferences {r : Reference} {op : Operand} (hr : r ∈ op.allReferences) :
    ∀ {ops : List Operand}, op ∈ ops → r ∈ listReferences ops
  | first :: rest, hop => by
    rw [listReferences, List.mem_append]
    rcases List.mem_cons.1 hop with rfl | h
    · exact .inl hr
    · exact .inr (mem_listReferences hr h)

/-- A part refers to no other series than the whole. -/
theorem Formula.Part.mem_allReferences {f g : Formula} (h : Formula.Part g f) {r : Reference}
    (hr : r ∈ g.allReferences) : r ∈ f.allReferences := by
  induction h with
  | self f => exact hr
  | nested _ hmem ih =>
    rw [Formula.allReferences_eq]
    exact Operand.mem_listReferences (ih hr) hmem

/-! ### Formulas without empty rows -/

/-- No operator of the formula lacks operands, at any depth. -/
def Formula.HasOperands (f : Formula) : Prop :=
  ∀ g, Formula.Part g f → g.operands ≠ []

theorem Formula.HasOperands.nested {f g : Formula} (h : f.HasOperands)
    (hg : Operand.nested g ∈ f.operands) : g.HasOperands :=
  fun part hpart => h part (.nested hpart hg)

theorem Formula.hasOperands_of_nested {f : Formula} (hf : f.operands ≠ [])
    (h : ∀ g, Operand.nested g ∈ f.operands → g.HasOperands) : f.HasOperands := by
  intro part hpart
  cases hpart with
  | self => exact hf
  | nested hpart hmem => exact h _ hmem part hpart

/-- No operator in the operand lacks operands. -/
def Operand.HasOperands : Operand → Prop
  | .nested f => f.HasOperands
  | .meter _ => True
  | .constant _ => True
  | .variable _ => True

/-- A formula has operands everywhere if it has some itself and its operands lack none. -/
theorem Formula.hasOperands_iff {f : Formula} :
    f.HasOperands ↔ f.operands ≠ [] ∧ ∀ op ∈ f.operands, op.HasOperands := by
  constructor
  · intro h
    refine ⟨h f (.self f), fun op hop => ?_⟩
    cases op with
    | nested g => exact h.nested hop
    | _ => exact trivial
  · rintro ⟨hne, hops⟩
    exact hasOperands_of_nested hne fun g hg => hops _ hg

/-! ### Operands of sample formulas -/

/-- The variable `x`. -/
def FormulaVariable.x : FormulaVariable :=
  ⟨"x", by decide⟩

/-- The literal one. -/
def ConstLiteral.one : ConstLiteral :=
  ⟨"1", 1, by decide, by decide, .inl rfl⟩

/-- The literal 0.1. -/
def ConstLiteral.tenth : ConstLiteral :=
  ⟨"0.1", 0.1, by decide, by decide, .inl rfl⟩

end EnergyFormula
