import EnergyFormula.Conversion.Lifting
import EnergyFormula.Proofs.Conversion.Lowering
import EnergyFormula.Proofs.Formula.Part

/-!
# The shape of lifted formulas

A product of a series and a constant is lifted to a single reference, and every other formula to
its function applied to its lifted operands (`Formula.lift_eq`).  From this it follows that a lifted
formula names the series of the formula, in the same order (`Formula.allNames_lift`), that it is no
deeper than the formula (`Formula.depth_lift_le_depth`), and that what an expression is lowered to is
lifted to an expression that is no deeper (`Expression.LowersTo.depth_lift_le`).
-/

namespace EnergyFormula

/-- The function that stands for the operator of a formula. -/
def Formula.liftedFunction : Formula → DomainFunction
  | .add _ => .groupedSum
  | .operand _ => .groupedSum
  | f => .extension f.operatorName

/-- The formula is the product of a series and a constant: of what is lifted to a series with a
factor, and a constant. -/
structure Formula.IsScaled (f : Formula) (op : Operand) (c : ConstLiteral) (name : String)
    (factor : Float) : Prop where
  eq_mul : f = .mul [op, .constant c]
  lift_operand : op.lift = .series name factor

theorem Operand.scaledSeries?_eq_some_iff {ops : List Operand} {p : Parameter} :
    scaledSeries? ops = some p ↔
      ∃ op c name factor, (Formula.mul ops).IsScaled op c name factor ∧
        p = .series name (factor * c.value) := by
  constructor
  · intro h
    unfold scaledSeries? at h
    split at h
    · rename_i op c
      split at h
      · rename_i name factor hop
        cases h
        exact ⟨op, c, name, factor, ⟨rfl, hop⟩, rfl⟩
      · cases h
    · cases h
  · rintro ⟨op, c, name, factor, ⟨hops, hop⟩, rfl⟩
    cases hops
    rw [scaledSeries?, hop]

theorem Formula.IsScaled.lift_eq {f : Formula} {op : Operand} {c : ConstLiteral} {name : String}
    {factor : Float} (h : f.IsScaled op c name factor) :
    f.lift = .apply .groupedSum [.series name (factor * c.value)] := by
  obtain ⟨rfl, hop⟩ := h
  rw [Formula.lift, Operand.scaledSeries?, hop]

/-- A formula is a scaled series, or it is lifted operand by operand. -/
theorem Formula.lift_eq (f : Formula) :
    (∃ op c name factor, f.IsScaled op c name factor) ∨
      f.lift = .apply f.liftedFunction (Operand.liftAll f.operands) := by
  cases f with
  | mul ops =>
    cases h : Operand.scaledSeries? ops with
    | some p =>
      obtain ⟨op, c, name, factor, hs, _⟩ := Operand.scaledSeries?_eq_some_iff.1 h
      exact .inl ⟨op, c, name, factor, hs⟩
    | none =>
      refine .inr ?_
      rw [Formula.lift, h]
      rfl
  | add ops => exact .inr rfl
  | sub a b => exact .inr rfl
  | div ops => exact .inr rfl
  | pos op => exact .inr rfl
  | operand op => exact .inr rfl

/-- A nested scaled series is lifted to a reference, any other nested formula to a nested
expression. -/
theorem Operand.lift_nested (f : Formula) :
    (∃ op c name factor, f.IsScaled op c name factor ∧
        (Operand.nested f).lift = .series name (factor * c.value)) ∨
      (Operand.nested f).lift = .expression f.lift := by
  cases f with
  | mul ops =>
    rw [Operand.lift, Formula.lift]
    cases h : scaledSeries? ops with
    | some p =>
      obtain ⟨op, c, name, factor, hs, rfl⟩ := scaledSeries?_eq_some_iff.1 h
      exact .inl ⟨op, c, name, factor, hs, rfl⟩
    | none => exact .inr rfl
  | add ops => exact .inr rfl
  | sub a b => exact .inr rfl
  | div ops => exact .inr rfl
  | pos op => exact .inr rfl
  | operand op => exact .inr rfl

/-! ### Series names -/

/-- If operands are lifted to their names one by one, so is a list of them. -/
theorem Operand.listNames_liftAll :
    ∀ {ops : List Operand},
      (∀ op ∈ ops, op.lift.allNames = op.allReferences.map Reference.name) →
        Parameter.listNames (liftAll ops) = (listReferences ops).map Reference.name
  | [], _ => rfl
  | op :: ops, h => by
    obtain ⟨hop, hops⟩ := List.forall_mem_cons.1 h
    rw [liftAll, Parameter.listNames, hop, listNames_liftAll hops, listReferences, List.map_append]

/-- A lifted formula names the series of the formula, in the same order. -/
theorem Formula.allNames_lift (f : Formula) :
    f.lift.allNames = f.allReferences.map Reference.name := by
  induction f using Formula.induction with
  | step f ih =>
    have hops : ∀ op ∈ f.operands, op.lift.allNames = op.allReferences.map Reference.name := by
      intro op hmem
      cases op with
      | nested g =>
        rw [Operand.allReferences, ← ih g hmem]
        rcases Operand.lift_nested g with ⟨_, _, _, _, hs, hg⟩ | hg
        · rw [hg, hs.lift_eq]
          rfl
        · rw [hg]
          rfl
      | _ => rfl
    rw [f.allReferences_eq, ← Operand.listNames_liftAll hops]
    rcases f.lift_eq with ⟨op, c, name, factor, hs⟩ | hf
    · -- the constant has no name to lose
      rw [hs.lift_eq, hs.eq_mul, Formula.operands, Operand.liftAll, hs.lift_operand]
      rfl
    · rw [hf]
      rfl

/-! ### Depth -/

/-- A lifted formula is at most one deeper than its lifted operands. -/
theorem Formula.depth_lift_le (f : Formula) :
    f.lift.depth ≤ 1 + Parameter.maxDepth (Operand.liftAll f.operands) := by
  rcases f.lift_eq with ⟨op, c, name, factor, hs⟩ | hf
  · rw [hs.lift_eq]
    exact Nat.le_add_right 1 _
  · rw [hf]
    exact Nat.le_refl _

theorem Operand.depth_lift_nested_le (f : Formula) :
    (Operand.nested f).lift.depth ≤ f.lift.depth := by
  rcases lift_nested f with ⟨_, _, _, _, _, hf⟩ | hf
  · rw [hf]
    exact Nat.zero_le _
  · rw [hf]
    exact Nat.le_refl _

theorem Operand.maxDepth_liftAll_le {ops : List Operand}
    (h : ∀ op ∈ ops, op.lift.depth ≤ op.depth) :
    Parameter.maxDepth (liftAll ops) ≤ maxDepth ops := by
  induction ops with
  | nil => exact Nat.le_refl _
  | cons op rest ih =>
    rw [List.forall_mem_cons] at h
    have hrest := ih h.2
    rw [liftAll, Parameter.maxDepth, maxDepth]
    omega

/-- A lifted formula is no deeper than the formula. -/
theorem Formula.depth_lift_le_depth (f : Formula) : f.lift.depth ≤ f.depth := by
  induction f using Formula.induction with
  | step f ih =>
    have hop : ∀ op ∈ f.operands, op.lift.depth ≤ op.depth := by
      intro op hmem
      cases op with
      | nested g => exact Nat.le_trans (Operand.depth_lift_nested_le g) (ih g hmem)
      | _ => exact Nat.le_refl _
    calc f.lift.depth ≤ 1 + Parameter.maxDepth (Operand.liftAll f.operands) := f.depth_lift_le
      _ ≤ 1 + Operand.maxDepth f.operands :=
        Nat.add_le_add_left (Operand.maxDepth_liftAll_le hop) 1
      _ = f.depth := f.depth_eq.symm

mutual

/-- What an expression is lowered to is lifted to an expression that is no deeper. -/
theorem Expression.LowersTo.depth_lift_le :
    ∀ {e : Expression} {f : Formula}, e.LowersTo [] f → f.lift.depth ≤ e.depth
  | _, _, .scaled _ hr _ => by
    obtain ⟨v, rfl, rfl⟩ := hr.eq_variable
    exact Nat.le_refl _
  | _, _, .single _ hp => by
    -- an operand alone is lifted to the sum of one term again
    have := hp.depth_lift_le
    simp only [Formula.lift, Expression.depth, Parameter.maxDepth]
    omega
  | _, _, .sum _ hps => Nat.add_le_add_left hps.maxDepth_liftAll_le 1
  | _, f, .operator hps hf => by
    have hops := hps.maxDepth_liftAll_le
    refine Nat.le_trans f.depth_lift_le ?_
    rw [hf.operands_eq, Expression.depth]
    exact Nat.add_le_add_left hops 1

theorem Parameter.LowersTo.depth_lift_le :
    ∀ {scaled : Bool} {p : Parameter} {op : Operand},
      p.LowersTo [] scaled op → op.lift.depth ≤ p.depth
  | _, _, _, .reference hr => by
    obtain ⟨v, rfl, rfl⟩ := hr.eq_variable
    exact Nat.le_refl _
  | _, _, _, .product _ hr _ => by
    obtain ⟨v, rfl, rfl⟩ := hr.eq_variable
    exact Nat.le_refl _
  | _, _, _, .constant _ => Nat.le_refl _
  | _, _, _, .expression he => Nat.le_trans (Operand.depth_lift_nested_le _) he.depth_lift_le

theorem Parameter.AllLowerTo.maxDepth_liftAll_le :
    ∀ {scaled : Bool} {ps : List Parameter} {ops : List Operand},
      Parameter.AllLowerTo [] scaled ps ops →
        Parameter.maxDepth (Operand.liftAll ops) ≤ Parameter.maxDepth ps
  | _, _, _, .nil => Nat.le_refl _
  | _, _, _, .cons hp hps => by
    have := hp.depth_lift_le
    have := hps.maxDepth_liftAll_le
    simp only [Operand.liftAll, Parameter.maxDepth]
    omega

end

end EnergyFormula
