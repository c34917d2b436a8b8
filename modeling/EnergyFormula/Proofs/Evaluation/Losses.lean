import EnergyFormula.Proofs.Evaluation.Signal
import EnergyFormula.Proofs.Number.Share
import EnergyFormula.Proofs.Time.Steps

/-!
# Losses

What losses and distribution leave of a metered quantity is a part of it
(`MeterOperand.losses_never_amplify`).  All three factors are shares, and so is the factor that they
come to (`MeterOperand.isShare_effectiveFactor`), however it is rounded; the evaluation scales every
sample by this factor (`MeterOperand.eval_eq`).
-/

namespace EnergyFormula

open Number

theorem Percent.isShare (p : Percent) : IsShare p.value := by
  have h := p.inRange
  simp only [admits, Bool.and_eq_true, decide_eq_true_eq] at h
  exact isShare_iff.2 h

namespace MeterOperand

variable {m : MeterOperand}

/-- What losses and distribution leave is a share. -/
theorem isShare_effectiveFactor (m : MeterOperand) : IsShare m.effectiveFactor := by
  have hlosses : IsShare ((1 - m.transformerLoss.value) * (1 - m.conductionLoss.value)) :=
    m.transformerLoss.isShare.one_sub.mul m.conductionLoss.isShare.one_sub
  exact hlosses.mul m.distribution.isShare

/-- The samples of a metered quantity are its contributions, each as good as what was metered. -/
theorem eval_eq {w : Workspace} {samples : Array Sample}
    (h : w.series m.meter.text = .ok (.series samples)) :
    (Operand.meter m).eval w =
      .ok (.series (samples.map fun x => ⟨m.effectiveValue x.value, x.quality⟩)) := by
  rw [Operand.eval, h, ok_bind, Signal.scale_eq_map]
  rfl

/-- Losses never amplify.  What they and the distribution leave is a factor from zero to one, and
the contribution of a finite quantity has its sign or is zero and is no larger, so that it is at most
the quantity if this is not negative.  The evaluation has the contribution of each sample in the
interval of the sample. -/
theorem losses_never_amplify (m : MeterOperand) :
    (m.effectiveFactor.isFinite = true ∧ 0 ≤ m.effectiveFactor ∧ m.effectiveFactor ≤ 1) ∧
      (∀ raw : Float, raw.isFinite = true →
        IsPartOf (m.effectiveValue raw) raw ∧ (0 ≤ raw → m.effectiveValue raw ≤ raw)) ∧
      ∀ (w : Workspace) (samples : Array Sample),
        w.series m.meter.text = .ok (.series samples) →
          (Operand.meter m).eval w =
            .ok (.series (samples.map fun x => ⟨m.effectiveValue x.value, x.quality⟩)) := by
  have hshare := m.isShare_effectiveFactor
  refine ⟨isShare_iff.1 hshare, fun raw hraw => ?_, fun w samples hw => eval_eq hw⟩
  exact ⟨hshare.isPartOf hraw, hshare.mul_le hraw⟩

/-- A metered consumption of which three parts in a thousand are lost twice. -/
def lossy : MeterOperand where
  meter := ⟨"DE00014545768S0000000000000003054", by decide⟩
  direction := .consumption
  transformerLoss := ⟨0.003, by decide⟩
  conductionLoss := ⟨0.003, by decide⟩
  distribution := .one

end MeterOperand

/-- Two hours of `MeterOperand.lossy`: a quantity is fed back, and then it is drawn. -/
def Workspace.fedBack : Workspace where
  grid := ⟨⟨⟨3600, 0⟩, ⟨10800, 0⟩⟩, .hour, 2, by decide, by decide⟩
  aligned := [(MeterOperand.lossy.meter.text, #[.validated (-250), .validated 250])]

/-- Behind losses less is fed back, and less is drawn. -/
theorem MeterOperand.losses_never_amplify_lossy :
    (-250 : Float).isFinite = true ∧ (250 : Float).isFinite = true ∧ (0 : Float) ≤ 250 ∧
      Workspace.fedBack.series lossy.meter.text =
        .ok (.series #[.validated (-250), .validated 250]) ∧
      IsPartOf (lossy.effectiveValue (-250)) (-250) ∧ lossy.effectiveValue 250 ≤ 250 ∧
      (Operand.meter lossy).eval .fedBack = .ok (.series
        #[.validated (lossy.effectiveValue (-250)), .validated (lossy.effectiveValue 250)]) := by
  obtain ⟨_, hparts, heval⟩ := losses_never_amplify lossy
  have hneg : (-250 : Float).isFinite = true := by decide
  have hpos : (250 : Float).isFinite = true := by decide
  have hzero : (0 : Float) ≤ 250 := by decide
  have hseries : Workspace.fedBack.series lossy.meter.text =
      .ok (.series #[.validated (-250), .validated 250]) := by
    simp [Workspace.series, Workspace.fedBack]
  refine ⟨hneg, hpos, hzero, hseries, (hparts _ hneg).1, (hparts _ hpos).2 hzero, ?_⟩
  rw [heval _ _ hseries]
  simp [Sample.validated]

end EnergyFormula
