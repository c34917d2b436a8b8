import EnergyFormula.Proofs.Evaluation.Failures

/-!
# One measure of depth

Validation counts formulas on its way down a document, `Formula.depth` counts them from the leaves
of the formula, and an evaluation compares that number with its limit.  All three agree: a limit
matters to validation only through the depth of the formula that the document stands for, and an
evaluation is refused for its depth exactly where validation under the same limit does not accept
the formula (`FormulaDocument.validate_eq_valid_iff_depth_le`).
-/

namespace EnergyFormula

/-- A document stands for one formula. -/
theorem FormulaDocument.Reads.unique {d : FormulaDocument} {f g : Formula} (hf : d.Reads f)
    (hg : d.Reads g) : g = f := by
  -- under a limit that both of them meet, validation answers with both
  have hvf : d.validate (max f.depth g.depth) = .valid f :=
    validate_eq_valid_iff.2 ⟨hf, Nat.le_max_left _ _⟩
  have hvg : d.validate (max f.depth g.depth) = .valid g :=
    validate_eq_valid_iff.2 ⟨hg, Nat.le_max_right _ _⟩
  exact Checked.valid.inj (hvg.symm.trans hvf)

/-- The evaluation of the formula is refused because the formula is too deep. -/
def Formula.RefusedForDepth (f : Formula) (limit : Nat) (inputs : Inputs) (grid : Grid) : Prop :=
  ∃ e, f.samples limit inputs grid = .error e ∧ e.code = .depthLimitExceeded

/-- Whatever the inputs are, an evaluation is refused for the depth of the formula alone. -/
theorem Formula.refusedForDepth_iff {f : Formula} (hops : f.HasOperands) {limit : Nat}
    {inputs : Inputs} {grid : Grid} :
    f.RefusedForDepth limit inputs grid ↔ limit < f.depth := by
  constructor
  · rintro ⟨e, he, hcode⟩
    by_contra hdepth
    obtain ⟨hdata, _⟩ := failsForData_samples (Nat.not_lt.1 hdepth) hops inputs grid e he
    rw [hcode] at hdata
    exact absurd hdata (by decide)
  · intro hdepth
    exact ⟨_, if_pos hdepth, rfl⟩

/-- A document is accepted as a formula under a limit exactly if it is accepted as this formula
under some limit and the formula is no deeper than the first limit.  So a greater limit accepts the
same formula, no limit accepts another one, and under every limit an evaluation of the formula is
refused for its depth exactly where the document is not accepted. -/
theorem FormulaDocument.validate_eq_valid_iff_depth_le (d : FormulaDocument) (limit : Nat)
    (f : Formula) :
    (d.validate limit = .valid f ↔ (∃ other, d.validate other = .valid f) ∧ f.depth ≤ limit) ∧
      (d.validate limit = .valid f →
        (∀ other, limit ≤ other → d.validate other = .valid f) ∧
        (∀ other g, d.validate other = .valid g → g = f) ∧
        ∀ other inputs grid,
          f.RefusedForDepth other inputs grid ↔ d.validate other ≠ .valid f) := by
  constructor
  · rw [validate_eq_valid_iff]
    constructor
    · rintro ⟨hf, hdepth⟩
      exact ⟨⟨limit, validate_eq_valid_iff.2 ⟨hf, hdepth⟩⟩, hdepth⟩
    · rintro ⟨⟨other, hother⟩, hdepth⟩
      exact ⟨(validate_eq_valid_iff.1 hother).1, hdepth⟩
  · intro h
    obtain ⟨hf, hdepth⟩ := validate_eq_valid_iff.1 h
    refine ⟨fun other hother => ?_, fun other g hg => ?_, fun other inputs grid => ?_⟩
    · exact validate_eq_valid_iff.2 ⟨hf, Nat.le_trans hdepth hother⟩
    · exact hf.unique (validate_eq_valid_iff.1 hg).1
    · have hops : f.HasOperands := fun _ hpart => hf.operands_ne_nil_of_part hpart
      rw [Formula.refusedForDepth_iff hops, ne_eq, validate_eq_valid_iff, not_and, Nat.not_le]
      exact ⟨fun hlimit _ => hlimit, fun hlimit => hlimit hf⟩

end EnergyFormula
