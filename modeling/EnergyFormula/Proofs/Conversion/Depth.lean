import EnergyFormula.Proofs.Conversion.Lifting

/-!
# Depth through conversion

A series that is written with its factor becomes a nested product, so the leaves of an expression
can grow by one level when it is lowered; its inner nodes keep theirs.  Hence a formula is at least
as deep as its expression (`Expression.LowersTo.depth_le`) and deeper by one level and the depth of
the bound operands at most (`Expression.LowersTo.le_depth_add`).  `depth_across_conversion` states
both without bindings, beside the bound for lifting.
-/

namespace EnergyFormula

variable {bindings : Bindings} {n : Nat}

/-! ### Lowering loses no level -/

mutual

/-- An expression is no deeper than the formula that it is lowered to. -/
theorem Expression.LowersTo.depth_le :
    ∀ {e : Expression} {f : Formula}, e.LowersTo bindings f → e.depth ≤ f.depth
  | _, _, .scaled _ _ _ => Nat.le_add_right 1 _
  | _, _, .single _ hp => by
    rw [Expression.depth, Formula.depth, Parameter.maxDepth, Parameter.maxDepth, Nat.max_zero]
    exact Nat.add_le_add_left hp.depth_le 1
  | _, _, .sum _ hps => Nat.add_le_add_left hps.maxDepth_le 1
  | _, f, .operator hps hf => by
    rw [f.depth_eq, hf.operands_eq, Expression.depth]
    exact Nat.add_le_add_left hps.maxDepth_le 1

theorem Parameter.LowersTo.depth_le :
    ∀ {scaled : Bool} {p : Parameter} {op : Operand},
      p.LowersTo bindings scaled op → p.depth ≤ op.depth
  | _, _, _, .reference _ => Nat.zero_le _
  | _, _, _, .product _ _ _ => Nat.zero_le _
  | _, _, _, .constant _ => Nat.le_refl _
  | _, _, _, .expression he => he.depth_le

theorem Parameter.AllLowerTo.maxDepth_le :
    ∀ {scaled : Bool} {ps : List Parameter} {ops : List Operand},
      Parameter.AllLowerTo bindings scaled ps ops → Parameter.maxDepth ps ≤ Operand.maxDepth ops
  | _, _, _, .nil => Nat.le_refl _
  | _, _, _, .cons hp hps => by
    have hfirst := hp.depth_le
    have hrest := hps.maxDepth_le
    rw [Parameter.maxDepth, Operand.maxDepth]
    omega

end

/-! ### Lowering adds one level at most -/

/-- No operand that is bound to a name is deeper than `n`. -/
def Bindings.DepthAtMost (bindings : Bindings) (n : Nat) : Prop :=
  ∀ name op, bindings.lookup name = some op → op.depth ≤ n

theorem Bindings.depthAtMost_nil : Bindings.DepthAtMost [] n := by
  intro name op h
  cases h

theorem Bindings.Resolves.depth_le {name : String} {r : Operand} (h : bindings.Resolves name r)
    (hb : bindings.DepthAtMost n) : r.depth ≤ n := by
  rcases h with h | ⟨_, v, _, rfl⟩
  · exact hb name r h
  · exact Nat.zero_le n

/-- The product of a series and its factor is one level above the series. -/
theorem Formula.depth_scaled (r : Operand) (c : ConstLiteral) :
    (Formula.mul [r, .constant c]).depth = 1 + r.depth := by
  simp [Formula.depth, Operand.maxDepth, Operand.depth]

mutual

/-- A formula is deeper than its expression by what the bound operands have, and by the level of
the factors. -/
theorem Expression.LowersTo.le_depth_add (hb : bindings.DepthAtMost n) :
    ∀ {e : Expression} {f : Formula}, e.LowersTo bindings f → f.depth ≤ e.depth + (n + 1)
  | _, _, .scaled _ hr _ => by
    have hdepth := hr.depth_le hb
    rw [Formula.depth_scaled]
    omega
  | _, _, .single _ hp => by
    have hop := hp.le_depth_add hb
    rw [Expression.depth, Formula.depth, Parameter.maxDepth, Parameter.maxDepth, Nat.max_zero]
    omega
  | _, _, .sum _ hps => by
    have hops := hps.le_maxDepth_add hb
    rw [Expression.depth, Formula.depth]
    omega
  | _, f, .operator hps hf => by
    have hops := hps.le_maxDepth_add hb
    rw [f.depth_eq, hf.operands_eq, Expression.depth]
    omega

theorem Parameter.LowersTo.le_depth_add (hb : bindings.DepthAtMost n) :
    ∀ {scaled : Bool} {p : Parameter} {op : Operand},
      p.LowersTo bindings scaled op → op.depth ≤ p.depth + (n + 1)
  | _, _, _, .reference hr => by
    have hdepth := hr.depth_le hb
    omega
  | _, _, _, .product _ hr _ => by
    have hdepth := hr.depth_le hb
    rw [Operand.depth, Formula.depth_scaled]
    omega
  | _, _, _, .constant _ => Nat.zero_le _
  | _, _, _, .expression he => he.le_depth_add hb

theorem Parameter.AllLowerTo.le_maxDepth_add (hb : bindings.DepthAtMost n) :
    ∀ {scaled : Bool} {ps : List Parameter} {ops : List Operand},
      Parameter.AllLowerTo bindings scaled ps ops →
        Operand.maxDepth ops ≤ Parameter.maxDepth ps + (n + 1)
  | _, _, _, .nil => Nat.zero_le _
  | _, _, _, .cons hp hps => by
    have hfirst := hp.le_depth_add hb
    have hrest := hps.le_maxDepth_add hb
    rw [Parameter.maxDepth, Operand.maxDepth]
    omega

end

/-- Without bindings a formula is as deep as its expression or deeper by one level, and a lifted
formula is no deeper than the formula.  So what is below a limit stays within it when it is lowered,
and what is within a limit stays within it when it is lifted. -/
theorem depth_across_conversion :
    (∀ (e : Expression) (f : Formula), e.lower [] = .ok f →
      e.depth ≤ f.depth ∧ f.depth ≤ e.depth + 1 ∧
        ∀ limit, e.depth < limit → f.depth ≤ limit) ∧
    (∀ f : Formula, f.lift.depth ≤ f.depth ∧
      ∀ limit, f.depth ≤ limit → f.lift.depth ≤ limit) := by
  constructor
  · intro e f h
    have hf := Expression.lower_eq_ok_iff.1 h
    have hupper : f.depth ≤ e.depth + 1 := hf.le_depth_add Bindings.depthAtMost_nil
    exact ⟨hf.depth_le, hupper, fun limit hlimit => Nat.le_trans hupper hlimit⟩
  · intro f
    exact ⟨f.depth_lift_le_depth, fun limit hlimit => Nat.le_trans f.depth_lift_le_depth hlimit⟩

/-- A sum of two series gains the level. -/
example :
    let e := Expression.groupedSum [("x", 1), ("y", 1)]
    e.depth = 1 ∧ (e.lower []).map Formula.depth = .ok 2 := by
  exact ⟨rfl, rfl⟩

end EnergyFormula
