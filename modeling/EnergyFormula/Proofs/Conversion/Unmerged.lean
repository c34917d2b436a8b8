import EnergyFormula.Proofs.Conversion.RoundTrip
import EnergyFormula.Proofs.Evaluation.InForce
import EnergyFormula.Proofs.Evaluation.Instants
import EnergyFormula.Proofs.Evaluation.Losses

/-!
# Formulas in which no factors are merged

Lifting changes nothing where a constant stands on a series without another factor, or is one itself
(`Formula.evaluate_lift`): the formula and what it is lifted to produce the same series, with any
settings.

* `Operand.renders_iff`: which operands are lifted to a series with a factor, and to which factor.
* `MeterOperand.isFinite_effectiveFactor`: what losses and distribution leave is a finite factor.
* `Formula.HasSingleFactors.mergesIn`: so there is nothing that merging could change.
* `Formula.eval_congr`: the series that a formula refers to are all that its signal depends on.
-/

namespace EnergyFormula

/-! ### Operands that are lifted to a series -/

/-- The operand is a series with a factor: a variable, a metered quantity with the factor that
losses and distribution leave, or the product of such an operand and a constant. -/
inductive Operand.Renders : Operand → String → Float → Prop
  | ofVariable (v : FormulaVariable) : Operand.Renders (.variable v) v.text 1
  | ofMeter (m : MeterOperand) : Operand.Renders (.meter m) m.meter.text m.effectiveFactor
  | product {r : Operand} {name : String} {factor : Float} (c : ConstLiteral) :
    r.Renders name factor →
      Operand.Renders (.nested (.mul [r, .constant c])) name (factor * c.value)

theorem Operand.Renders.lift_eq {op : Operand} {name : String} {factor : Float}
    (h : op.Renders name factor) : op.lift = .series name factor := by
  induction h with
  | ofVariable v => rfl
  | ofMeter m => rfl
  | product c _ ih => rw [lift, scaledSeries?, ih]

theorem Operand.renders_of_lift_nested (f : Formula) {name : String} {factor : Float}
    (h : (Operand.nested f).lift = .series name factor) :
    (Operand.nested f).Renders name factor := by
  induction f using Formula.induction generalizing name factor with
  | step f ih =>
    rcases lift_nested f with ⟨r, c, inner, k, ⟨rfl, hr⟩, hlift⟩ | hlift
    · rw [hlift] at h
      cases h
      refine .product c ?_
      cases r with
      | meter m =>
        cases hr
        exact .ofMeter m
      | constant c => cases hr
      | «variable» v =>
        cases hr
        exact .ofVariable v
      | nested g => exact ih g List.mem_cons_self hr
    · rw [hlift] at h
      cases h

/-- These are the operands that are lifted to a series. -/
theorem Operand.renders_iff {op : Operand} {name : String} {factor : Float} :
    op.Renders name factor ↔ op.lift = .series name factor := by
  refine ⟨Renders.lift_eq, fun h => ?_⟩
  cases op with
  | meter m =>
    cases h
    exact .ofMeter m
  | constant c => cases h
  | «variable» v =>
    cases h
    exact .ofVariable v
  | nested f => exact renders_of_lift_nested f h

/-! ### Factors -/

/-- Losses and distribution are shares, and so is what they leave. -/
theorem MeterOperand.isFinite_effectiveFactor (m : MeterOperand) :
    m.effectiveFactor.isFinite = true :=
  (Number.isShare_iff.1 m.isShare_effectiveFactor).1

theorem Formula.metersFinite (f : Formula) : f.MetersFinite :=
  fun _ m _ _ => m.isFinite_effectiveFactor

/-- Where a series with a factor is multiplied by a constant, one of the two is one. -/
def Formula.HasSingleFactors (f : Formula) : Prop :=
  ∀ r c name factor, Formula.Part (.mul [r, .constant c]) f → r.Renders name factor →
    factor = 1 ∨ c.value = 1

theorem Formula.hasSingleFactors_of_nested {f : Formula}
    (hf : ∀ r c name factor, f = .mul [r, .constant c] → r.Renders name factor →
      factor = 1 ∨ c.value = 1)
    (h : ∀ g, Operand.nested g ∈ f.operands → g.HasSingleFactors) : f.HasSingleFactors := by
  intro r c name factor hpart hr
  generalize hg : Formula.mul [r, .constant c] = g at hpart
  cases hpart with
  | self => exact hf r c name factor hg.symm hr
  | nested hpart hmem => exact h _ hmem r c name factor (hg ▸ hpart) hr

/-- The factors in such a formula are finite. -/
theorem Formula.HasSingleFactors.isFinite {f : Formula} (h : f.HasSingleFactors) {op : Operand}
    {name : String} {factor : Float} (hop : op.Renders name factor)
    (hpart : ∀ g, op = .nested g → Formula.Part g f) : factor.isFinite = true := by
  induction hop with
  | ofVariable v => exact Number.isFinite_one
  | ofMeter m => exact m.isFinite_effectiveFactor
  | @product r name factor c hr ih =>
    have hproduct := hpart _ rfl
    have hfactor : factor.isFinite = true := by
      refine ih fun g hg => .trans ?_ hproduct
      exact .nested (.self g) (hg ▸ List.mem_cons_self)
    -- one of the two factors is one, so the product is the other one
    rcases h r c name factor hproduct hr with rfl | hone
    · rw [Number.one_mul]
      exact c.finite
    · rw [hone, Number.mul_one]
      exact hfactor

/-- Merging a factor that is one changes nothing. -/
theorem Formula.HasSingleFactors.mergesIn {f : Formula} (h : f.HasSingleFactors) (w : Workspace) :
    f.MergesIn w := by
  rintro g op c name factor hg ⟨rfl, hlift⟩
  have hop := Operand.renders_iff.2 hlift
  rcases h op c name factor hg hop with rfl | hone
  · exact w.merges_one name c
  · have hfinite : factor.isFinite = true :=
      h.isFinite hop fun k hk => .trans (.nested (.self k) (hk ▸ List.mem_cons_self)) hg
    rw [hone]
    refine ⟨?_, fun _ _ s _ => ?_⟩
    · rw [Number.mul_one]
      exact hfinite
    · rw [Number.mul_one, Number.mul_one]

/-! ### Workspaces -/

theorem Operand.evalAll_congr {w w' : Workspace} {ops : List Operand}
    (h : ∀ op ∈ ops, op.eval w = op.eval w') : evalAll w ops = evalAll w' ops := by
  induction ops with
  | nil => rfl
  | cons op rest ih =>
    rw [List.forall_mem_cons] at h
    rw [evalAll, evalAll, h.1, ih h.2]

/-- The signal of a formula depends on the series that it refers to, and on nothing else. -/
theorem Formula.eval_congr {w w' : Workspace} (f : Formula)
    (h : ∀ r ∈ f.allReferences, w.series r.name = w'.series r.name) : f.eval w = f.eval w' := by
  induction f using Formula.induction with
  | step f ih =>
    have hop : ∀ op ∈ f.operands, op.eval w = op.eval w' := by
      intro op hmem
      have hrefs : ∀ r ∈ op.allReferences, w.series r.name = w'.series r.name := by
        intro r hr
        rw [f.allReferences_eq] at h
        exact h r (Operand.mem_listReferences hr hmem)
      cases op with
      | meter m =>
        have hmeter : w.series m.meter.text = w'.series m.meter.text :=
          hrefs (.meter m.meter) List.mem_cons_self
        rw [Operand.eval, Operand.eval, hmeter]
      | constant c => rfl
      | «variable» v => exact hrefs (.variable v) List.mem_cons_self
      | nested g => exact ih g hmem hrefs
    by_cases hne : f.operands = []
    · cases f <;> cases hne <;> rfl
    · rw [f.eval_eq_applyTo w hne, f.eval_eq_applyTo w' hne, Operand.evalAll_congr hop]

/-- Names that are all prepared already can be prepared alone, and they have the same series. -/
theorem Workspace.exists_prepare_of_subset {grid : Grid} {inputs : Inputs}
    {names names' : List String} {w : Workspace} (h : prepare grid inputs names = .ok w)
    (hsub : ∀ name ∈ names', name ∈ names) :
    ∃ w', prepare grid inputs names' = .ok w' ∧
      ∀ name ∈ names', w'.series name = w.series name := by
  have halign : ∀ name ∈ names', ∃ samples, w.series name = .ok (.series samples) ∧
      alignNamed grid inputs name = .ok samples :=
    fun name hname => series_eq_ok_of_mem h (hsub name hname)
  obtain ⟨aligned, haligned⟩ := exists_alignAll_iff.2 fun name hname => by
    obtain ⟨samples, _, hsamples⟩ := halign name hname
    exact ⟨samples, hsamples⟩
  have hprepare : prepare grid inputs names' = .ok ⟨grid, aligned⟩ := by
    rw [prepare, haligned]
    rfl
  refine ⟨⟨grid, aligned⟩, hprepare, fun name hname => ?_⟩
  obtain ⟨samples, hseries, hsamples⟩ := halign name hname
  obtain ⟨samples', hseries', hsamples'⟩ := series_eq_ok_of_mem hprepare hname
  rw [hsamples] at hsamples'
  rw [hseries, hseries', Except.ok.inj hsamples']

/-! ### Main result -/

/-- A lifted formula looks up the series that the formula refers to. -/
theorem Formula.mem_seriesNames_lift {f : Formula} {name : String} :
    name ∈ f.lift.seriesNames ↔ name ∈ f.names := by
  rw [Expression.mem_seriesNames, f.allNames_lift, names, List.mem_map, List.mem_map]
  simp only [mem_references]

/-- A formula in which no two factors other than one are multiplied produces a series only if what
it is lifted to produces the same one, under any settings. -/
theorem Formula.evaluate_lift (f : Formula) (hfactors : f.HasSingleFactors) (settings : Settings)
    (inputs : Inputs) (period : Period) (output : OutputSpec) (series : TimeSeries)
    (h : f.evaluate settings inputs period output = .ok series) :
    f.lift.evaluate settings inputs period output = .ok series := by
  obtain ⟨grid, samples, hgrid, hsamples, rfl⟩ := evaluate_eq_ok_iff.1 h
  obtain ⟨hdepth, w, signal, hw, hsignal, rfl⟩ := samples_eq_ok_iff.1 hsamples
  obtain ⟨w', hw', hseries⟩ :=
    Workspace.exists_prepare_of_subset hw fun _ hname => mem_seriesNames_lift.1 hname
  have hsame : f.eval w' = f.eval w := by
    refine f.eval_congr fun r hr => hseries r.name (mem_seriesNames_lift.2 ?_)
    exact List.mem_map_of_mem (mem_references.2 hr)
  rw [← hsame] at hsignal
  exact (Expression.evaluate_eq_ok_iff f.isReduction_lift).2
    ⟨Nat.le_trans f.depth_lift_le_depth hdepth, grid, w', signal, hgrid, hw',
      f.eval_lift (hfactors.mergesIn w') f.metersFinite hsignal, rfl⟩

/-- Twice `x`. -/
def Formula.doubled : Formula :=
  .mul [.variable .x, .constant ⟨"2", 2, by decide, by decide, .inl rfl⟩]

/-- Once twice `x`, which is lifted to `x` with the product of both factors. -/
def Formula.onceDoubled : Formula :=
  .mul [.nested doubled, .constant .one]

theorem Formula.hasSingleFactors_onceDoubled : onceDoubled.HasSingleFactors := by
  refine hasSingleFactors_of_nested (fun r c name factor hmul hr => ?_) fun g hg => ?_
  · cases hmul
    exact .inr rfl
  · obtain rfl : g = doubled := by simpa [onceDoubled, operands] using hg
    refine hasSingleFactors_of_nested (fun r c name factor hmul hr => ?_) fun g hg => ?_
    · cases hmul
      cases hr
      exact .inl rfl
    · simp [doubled, operands] at hg

/-- Once twice a quantity over one hour is produced alike by the formula and by what it is lifted
to. -/
theorem Formula.evaluate_lift_onceDoubled :
    onceDoubled.HasSingleFactors ∧
      onceDoubled.lift = .apply .groupedSum [.series "x" (1 * 2 * 1)] ∧
        ∃ series, onceDoubled.evaluate default .oneHour Grid.oneHour.period .oneHour = .ok series ∧
          onceDoubled.lift.evaluate default .oneHour Grid.oneHour.period .oneHour = .ok series := by
  have hnames : onceDoubled.names = ["x"] := by decide +kernel
  have hgrid : Grid.build Grid.oneHour.period Grid.oneHour.resolution = .ok .oneHour :=
    Grid.build_eq_ok_iff.2 ⟨rfl, rfl⟩
  have hok : onceDoubled.evaluate default .oneHour Grid.oneHour.period .oneHour
      = .ok (outputSeries default .oneHour none .oneHour #[⟨1e13 * 2 * 1, .validated⟩]) :=
    evaluate_eq_ok_iff.2 ⟨_, _, hgrid,
      samples_eq_ok_iff.2 ⟨by decide, _, _, by rw [hnames]; rfl, rfl, rfl⟩, rfl⟩
  exact ⟨hasSingleFactors_onceDoubled, rfl, _, hok,
    onceDoubled.evaluate_lift hasSingleFactors_onceDoubled _ _ _ _ _ hok⟩

end EnergyFormula
