import EnergyFormula.Evaluation.Output
import EnergyFormula.Proofs.Conversion.Lifting
import EnergyFormula.Proofs.Conversion.Meaning
import EnergyFormula.Proofs.Time.Steps

/-!
# Lowering and lifting again

Lifting merges the factors of nested products into one, and one factor need not have the effect of
several in turn: the product of the factors is rounded, and it may be too large for a finite number.
`Formula.MergesIn` says that in a workspace no part of a formula is changed by that.

* `Workspace.merges_one`: none is by a constant on a plain series.
* `Formula.eval_lift`: the lifted formula then evaluates to what the formula evaluates to.
* `Formula.mergesIn_iff_eval_lift`: the condition is exact for the parts of a formula, taken
  together.
* `Formula.isFinite_of_eval_lift`: with a merged factor that is not finite, the lifted formula
  cannot be evaluated at all.
-/

namespace EnergyFormula

/-- Two factors in turn have the effect of their product on every sample of a series. -/
structure Workspace.Merges (w : Workspace) (name : String) (k c : Float) : Prop where
  finite : (k * c).isFinite = true
  exact : ∀ samples, w.series name = .ok (.series samples) →
    ∀ s ∈ samples, s.value * k * c = s.value * (k * c)

/-- Merging the factors of its scaled series changes no part of the formula. -/
def Formula.MergesIn (w : Workspace) (f : Formula) : Prop :=
  ∀ g op c name factor, Formula.Part g f → g.IsScaled op c name factor →
    w.Merges name factor c.value

/-- The factors of all meters in the formula are finite. -/
def Formula.MetersFinite (f : Formula) : Prop :=
  ∀ g m, Formula.Part g f → Operand.meter m ∈ g.operands → m.effectiveFactor.isFinite = true

/-- A constant on a plain series has no factor to be merged with. -/
theorem Workspace.merges_one (w : Workspace) (name : String) (c : ConstLiteral) :
    w.Merges name 1 c.value where
  finite := by
    rw [Number.one_mul]
    exact c.finite
  exact _ _ _ _ := by
    rw [Number.mul_one, Number.one_mul]

/-! ### Series with factors -/

/-- Two factors have the effect of their product exactly if they have it on every sample. -/
theorem Signal.scale_scale_eq_iff (samples : Array Sample) (k c : Float) :
    ((Signal.series samples).scale k).scale c = (Signal.series samples).scale (k * c) ↔
      ∀ s ∈ samples, s.value * k * c = s.value * (k * c) := by
  simp only [Signal.scale_eq_map, Signal.map, Signal.series.injEq, Array.map_map,
    Array.map_inj_left]
  simp

/-- The product of an operand and a constant is the operand times the constant. -/
theorem Formula.eval_mul_constant_eq_ok_iff {w : Workspace} {op : Operand} {c : ConstLiteral}
    {s : Signal} :
    (Formula.mul [op, .constant c]).eval w = .ok s ↔
      ∃ t, op.eval w = .ok t ∧ s = t.scale c.value := by
  have happly (t : Signal) :
      (DomainFunction.extension "mul").applyTo [t, .constant c.value] = .ok (t.scale c.value) :=
    congrArg Except.ok (Signal.combine_mul_constant t c.value)
  rw [Formula.eval_eq_applyTo w (by simp [Formula.operands])]
  constructor
  · intro h
    obtain ⟨ss, hss, h⟩ := bind_eq_ok.1 h
    obtain ⟨t, ht, hss⟩ := bind_eq_ok.1 hss
    cases hss
    exact ⟨t, ht, Except.ok.inj (h.symm.trans (happly t))⟩
  · rintro ⟨t, ht, rfl⟩
    simp only [Formula.operands, Operand.evalAll, Operand.eval, ht, ok_bind, pure_eq_ok]
    exact happly t

/-! ### Lifting evaluates alike -/

theorem Operand.length_liftAll (ops : List Operand) : (liftAll ops).length = ops.length := by
  induction ops with
  | nil => rfl
  | cons op ops ih => rw [liftAll, List.length_cons, List.length_cons, ih]

/-- If the operands evaluate to what they are lifted to, one by one, so does a list of them. -/
theorem Operand.evalAll_liftAll {w : Workspace} {function : DomainFunction} :
    ∀ {ops : List Operand} {ss : List Signal} {index : Nat},
      (∀ op ∈ ops, ∀ index s, op.eval w = .ok s → op.lift.eval w function index = .ok s) →
        evalAll w ops = .ok ss →
          Parameter.evalAll w function index (liftAll ops) = .ok ss
  | [], _, _, _, h => h
  | op :: ops, ss, index, hlift, h => by
    obtain ⟨hop, hops⟩ := List.forall_mem_cons.1 hlift
    obtain ⟨s, hs, h⟩ := bind_eq_ok.1 h
    obtain ⟨rest, hrest, h⟩ := bind_eq_ok.1 h
    cases h
    rw [liftAll, Parameter.evalAll, hop index s hs, evalAll_liftAll hops hrest]
    rfl

/-- A formula that evaluates has an operand, and its operands evaluate. -/
theorem Formula.eval_eq_ok_iff {w : Workspace} {f : Formula} {s : Signal} :
    f.eval w = .ok s ↔
      f.operands ≠ [] ∧ ∃ ss, Operand.evalAll w f.operands = .ok ss ∧
        (DomainFunction.extension f.operatorName).applyTo ss = .ok s := by
  constructor
  · intro h
    have hne : f.operands ≠ [] := by
      intro hnil
      cases f <;> cases hnil <;> cases h
    rw [f.eval_eq_applyTo w hne, bind_eq_ok] at h
    exact ⟨hne, h⟩
  · rintro ⟨hne, h⟩
    rw [f.eval_eq_applyTo w hne, bind_eq_ok]
    exact h

/-- A nested formula is lifted to what evaluates like the lifted formula. -/
theorem Operand.eval_lift_nested_eq_ok_iff {w : Workspace} {function : DomainFunction}
    {index : Nat} {g : Formula} {s : Signal} :
    (Operand.nested g).lift.eval w function index = .ok s ↔ g.lift.eval w = .ok s := by
  rcases lift_nested g with ⟨_, _, _, _, hscaled, hlift⟩ | hlift
  · rw [hlift, hscaled.lift_eq, Expression.eval_groupedSum_singleton,
      Parameter.eval_series_eq_ok_iff, Parameter.eval_series_eq_ok_iff]
  · rw [hlift, Parameter.eval]

theorem Formula.check_liftedFunction {f : Formula} (h : f.operands ≠ []) :
    f.liftedFunction.check f.operands.length = .ok () := by
  cases f with
  | add ops =>
    obtain ⟨op, rest, hops⟩ := List.exists_cons_of_ne_nil h
    rw [hops]
    rfl
  | mul ops => exact DomainFunction.check_of_ne_nil (.inr (.inl rfl)) h
  | div ops => exact DomainFunction.check_of_ne_nil (.inr (.inr rfl)) h
  | sub a b => rfl
  | pos op => rfl
  | operand op => rfl

/-- The lifted function does what the operator does. -/
theorem Formula.applyTo_liftedFunction {f : Formula} {ss : List Signal} (h : f.operands ≠ [])
    (hlen : ss.length = f.operands.length) :
    f.liftedFunction.applyTo ss = (DomainFunction.extension f.operatorName).applyTo ss := by
  have hpos : 0 < ss.length := by
    rw [hlen]
    exact List.length_pos_iff.2 h
  obtain ⟨s, rest, rfl⟩ := List.exists_cons_of_length_pos hpos
  cases f with
  | operand op =>
    obtain rfl : rest = [] := List.eq_nil_of_length_eq_zero (Nat.succ.inj hlen)
    rfl
  | _ => rfl

theorem Formula.liftedFunction_ne (f : Formula) : f.liftedFunction ≠ .conditionalBranch := by
  cases f <;> simp [liftedFunction]

theorem Formula.Part.trans {f g h : Formula} (hg : Formula.Part h g) (hf : Formula.Part g f) :
    Formula.Part h f := by
  induction hf with
  | self f => exact hg
  | nested _ hmem ih => exact .nested (ih hg) hmem

/-- An operand evaluates to what it is lifted to, if a nested formula does. -/
theorem Operand.eval_lift {w : Workspace} {op : Operand}
    (hmeter : ∀ m, op = .meter m → m.effectiveFactor.isFinite = true)
    (hnested : ∀ g, op = .nested g → ∀ s, g.eval w = .ok s → g.lift.eval w = .ok s)
    {function : DomainFunction} {index : Nat} {s : Signal} (h : op.eval w = .ok s) :
    op.lift.eval w function index = .ok s := by
  cases op with
  | meter m =>
    obtain ⟨t, ht, h⟩ := bind_eq_ok.1 h
    cases h
    rw [Operand.lift, Parameter.eval_series _ _ _ _ (hmeter m rfl), ht]
    rfl
  | constant c =>
    rw [Operand.lift]
    cases h
    exact Parameter.eval_constant_eq_ok_iff.2 ⟨c.finite, rfl⟩
  | «variable» v =>
    rw [Operand.lift, Parameter.eval_series _ _ _ _ Number.isFinite_one, ← Operand.eval, h]
    rfl
  | nested g => exact Operand.eval_lift_nested_eq_ok_iff.2 (hnested g rfl s h)

/-- Where merging changes no part of a formula, the lifted formula evaluates to what the formula
evaluates to. -/
theorem Formula.eval_lift {w : Workspace} (f : Formula) (hmerge : f.MergesIn w)
    (hmeter : f.MetersFinite) {s : Signal} (h : f.eval w = .ok s) : f.lift.eval w = .ok s := by
  induction f using Formula.induction generalizing s with
  | step f ih =>
    -- one by one the operands evaluate to what they are lifted to
    have hop : ∀ op ∈ f.operands, ∀ function index s,
        op.eval w = .ok s → op.lift.eval w function index = .ok s := by
      intro op hmem function index s hs
      refine Operand.eval_lift ?_ ?_ hs
      · rintro m rfl
        exact hmeter f m (.self f) hmem
      · rintro g rfl t ht
        have hpart : ∀ {h}, Formula.Part h g → Formula.Part h f := fun hg => .nested hg hmem
        exact ih g hmem (fun h op c name k hh => hmerge h op c name k (hpart hh))
          (fun h m hh => hmeter h m (hpart hh)) ht
    rcases f.lift_eq with ⟨op, c, name, factor, hscaled⟩ | hlift
    · obtain ⟨rfl, hseries⟩ := id hscaled
      obtain ⟨t, ht, rfl⟩ := eval_mul_constant_eq_ok_iff.1 h
      -- the operand is the series times its own factor, which is merged with the constant
      have hs := hop op List.mem_cons_self .groupedSum 0 t ht
      rw [hseries, Parameter.eval_series_eq_ok_iff] at hs
      obtain ⟨_, samples, hsamples, rfl⟩ := hs
      obtain ⟨hfinite, hexact⟩ := hmerge _ op c name factor (.self _) hscaled
      rw [hscaled.lift_eq, Expression.eval_groupedSum_singleton, Parameter.eval_series_eq_ok_iff]
      exact ⟨hfinite, samples, hsamples, (Signal.scale_scale_eq_iff _ _ _).2 (hexact _ hsamples)⟩
    · obtain ⟨hne, ss, hss, happly⟩ := eval_eq_ok_iff.1 h
      rw [hlift, Expression.eval_apply w f.liftedFunction_ne, Operand.length_liftAll,
        check_liftedFunction hne, ok_bind,
        Operand.evalAll_liftAll (fun op hmem => hop op hmem f.liftedFunction) hss, ok_bind,
        applyTo_liftedFunction hne (Operand.length_evalAll hss)]
      exact happly

/-! ### Necessity -/

/-- An operand that is lifted to a series with a factor is the series times the factor; a nested
formula is if it evaluates to what it is lifted to. -/
theorem Operand.eval_of_lift_eq_series {w : Workspace} {op : Operand} {name : String}
    {factor : Float} (hlift : op.lift = .series name factor)
    (hnested : ∀ g, op = .nested g → g.lift.eval w = g.eval w) {s : Signal}
    (hs : op.eval w = .ok s) :
    ∃ samples, w.series name = .ok (.series samples) ∧
      s = (Signal.series samples).scale factor := by
  cases op with
  | meter m =>
    cases hlift
    obtain ⟨t, ht, hs⟩ := bind_eq_ok.1 hs
    obtain ⟨samples, rfl⟩ := w.series_eq_series ht
    cases hs
    exact ⟨samples, ht, rfl⟩
  | constant c => cases hlift
  | nested g =>
    rw [eval, ← hnested g rfl, ← @eval_lift_nested_eq_ok_iff w .groupedSum 0, hlift,
      Parameter.eval_series_eq_ok_iff] at hs
    exact hs.2
  | _ =>
    cases hlift
    obtain ⟨samples, rfl⟩ := w.series_eq_series hs
    exact ⟨samples, hs, rfl⟩

theorem Operand.eval_of_evalAll {w : Workspace} {op : Operand} :
    ∀ {ops : List Operand} {ss : List Signal},
      evalAll w ops = .ok ss → op ∈ ops → ∃ s, op.eval w = .ok s
  | first :: rest, ss, h, hop => by
    obtain ⟨s, hs, h⟩ := bind_eq_ok.1 h
    obtain ⟨others, hrest, _⟩ := bind_eq_ok.1 h
    rcases List.mem_cons.1 hop with rfl | hmem
    · exact ⟨s, hs⟩
    · exact eval_of_evalAll hrest hmem

/-- The parts of a formula that evaluates evaluate. -/
theorem Formula.Part.eval_eq_ok {w : Workspace} {f g : Formula} (h : Formula.Part g f)
    {s : Signal} (hf : f.eval w = .ok s) : ∃ t, g.eval w = .ok t := by
  induction h generalizing s with
  | self f => exact ⟨s, hf⟩
  | nested _ hmem ih =>
    obtain ⟨_, ss, hss, _⟩ := eval_eq_ok_iff.1 hf
    obtain ⟨t, ht⟩ := Operand.eval_of_evalAll hss hmem
    exact ih ht

/-- Merging changes no part of a formula exactly if each part evaluates to what it is lifted
to. -/
theorem Formula.mergesIn_iff_eval_lift {w : Workspace} {f : Formula} (hmeter : f.MetersFinite)
    {s : Signal} (h : f.eval w = .ok s) :
    f.MergesIn w ↔ ∀ g, Formula.Part g f → g.lift.eval w = g.eval w := by
  constructor
  · intro hmerge g hg
    obtain ⟨t, ht⟩ := hg.eval_eq_ok h
    rw [ht]
    exact g.eval_lift (fun h op c name k hh => hmerge h op c name k (hh.trans hg))
      (fun h m hh => hmeter h m (hh.trans hg)) ht
  · intro hparts g op c name factor hg hscaled
    obtain ⟨t, ht⟩ := hg.eval_eq_ok h
    have hlift := hparts g hg
    rw [ht, hscaled.lift_eq, Expression.eval_groupedSum_singleton,
      Parameter.eval_series_eq_ok_iff] at hlift
    obtain ⟨hfinite, samples, hsamples, hmerged⟩ := hlift
    refine ⟨hfinite, fun samples' hsamples' => ?_⟩
    obtain rfl : samples = samples' :=
      Signal.series.inj (Except.ok.inj (hsamples.symm.trans hsamples'))
    -- the part itself multiplies by one factor after the other
    obtain ⟨rfl, hseries⟩ := id hscaled
    obtain ⟨u, hu, rfl⟩ := eval_mul_constant_eq_ok_iff.1 ht
    have hnested : ∀ g', op = .nested g' → g'.lift.eval w = g'.eval w := by
      rintro g' rfl
      exact hparts g' (.trans (.nested (.self g') List.mem_cons_self) hg)
    obtain ⟨_, h', rfl⟩ := Operand.eval_of_lift_eq_series hseries hnested hu
    obtain rfl := Signal.series.inj (Except.ok.inj (hsamples.symm.trans h'))
    exact (Signal.scale_scale_eq_iff _ _ _).1 hmerged

/-! ### Factors that are not finite -/

theorem Parameter.eval_of_evalAll_liftAll {w : Workspace} {function : DomainFunction}
    {op : Operand} :
    ∀ {ops : List Operand} {ss : List Signal} {index : Nat},
      Parameter.evalAll w function index (Operand.liftAll ops) = .ok ss → op ∈ ops →
        ∃ i s, op.lift.eval w function i = .ok s
  | first :: rest, ss, index, h, hop => by
    obtain ⟨s, hs, h⟩ := bind_eq_ok.1 h
    obtain ⟨others, hrest, _⟩ := bind_eq_ok.1 h
    rcases List.mem_cons.1 hop with rfl | hmem
    · exact ⟨index, s, hs⟩
    · exact eval_of_evalAll_liftAll hrest hmem

/-- Evaluating a lifted formula leaves out none of the nested ones. -/
theorem Formula.eval_lift_nested {w : Workspace} {f g : Formula} {s : Signal}
    (h : f.lift.eval w = .ok s) (hmem : Operand.nested g ∈ f.operands) :
    ∃ t, g.lift.eval w = .ok t := by
  rcases f.lift_eq with ⟨op, c, name, factor, hscaled⟩ | hlift
  · rw [hscaled.lift_eq, Expression.eval_groupedSum_singleton,
      Parameter.eval_series_eq_ok_iff] at h
    obtain ⟨hfinite, samples, hsamples, _⟩ := h
    obtain ⟨rfl, hseries⟩ := hscaled
    obtain rfl : Operand.nested g = op := by simpa [operands] using hmem
    -- its factor is a factor of the one that is finite
    have hg : (Operand.nested g).lift.eval w .groupedSum 0
        = .ok ((Signal.series samples).scale factor) := by
      rw [hseries]
      exact Parameter.eval_series_eq_ok_iff.2
        ⟨Number.isFinite_of_mul hfinite, samples, hsamples, rfl⟩
    exact ⟨_, Operand.eval_lift_nested_eq_ok_iff.1 hg⟩
  · rw [hlift] at h
    obtain ⟨_, ss, hss, _⟩ := (Expression.eval_apply_eq_ok_iff f.liftedFunction_ne).1 h
    obtain ⟨i, t, ht⟩ := Parameter.eval_of_evalAll_liftAll hss hmem
    exact ⟨t, Operand.eval_lift_nested_eq_ok_iff.1 ht⟩

/-- If a lifted formula evaluates, all factors that are merged in it are finite. -/
theorem Formula.isFinite_of_eval_lift {w : Workspace} {f g : Formula} {s : Signal}
    (h : f.lift.eval w = .ok s) (hg : Formula.Part g f) {op : Operand} {c : ConstLiteral}
    {name : String} {factor : Float} (hscaled : g.IsScaled op c name factor) :
    (factor * c.value).isFinite = true := by
  induction hg generalizing s with
  | self f =>
    rw [hscaled.lift_eq, Expression.eval_groupedSum_singleton,
      Parameter.eval_series_eq_ok_iff] at h
    exact h.1
  | nested _ hmem ih =>
    obtain ⟨t, ht⟩ := eval_lift_nested h hmem
    exact ih ht hscaled

/-! ### Main result -/

/-- A formula without meters has no meter in its parts. -/
theorem Expression.LowersTo.metersFinite {e : Expression} {f : Formula} (h : e.LowersTo [] f) :
    f.MetersFinite := by
  intro g m hg hmem
  obtain ⟨vs, hf, _⟩ := h.allReferences_eq
  -- a meter is a reference of the formula, but all references are variables
  have hr : Reference.meter m.meter ∈ f.allReferences := by
    apply hg.mem_allReferences
    rw [g.allReferences_eq]
    exact Operand.mem_listReferences List.mem_cons_self hmem
  rw [hf] at hr
  obtain ⟨v, _, hv⟩ := List.mem_map.1 hr
  cases hv

/-- A lowered expression and what its formula is lifted to look up the same series. -/
theorem Expression.LowersTo.seriesNames_lift {e : Expression} {f : Formula}
    (h : e.LowersTo [] f) : f.lift.seriesNames = e.seriesNames := by
  obtain ⟨vs, hf, he⟩ := h.allReferences_eq
  have hnames : f.lift.allNames = e.allNames := by
    rw [f.allNames_lift, hf, ← he, List.map_map]
    rfl
  rw [seriesNames, hnames, seriesNames]

theorem Formula.isReduction_lift (f : Formula) : f.lift.function.isReduction = false := by
  rcases f.lift_eq with ⟨_, _, _, _, hscaled⟩ | hlift
  · rw [hscaled.lift_eq]
    rfl
  · rw [hlift]
    cases f <;> rfl

theorem Expression.LowersTo.isReduction {bindings : Bindings} {e : Expression} {f : Formula}
    (h : e.LowersTo bindings f) : e.function.isReduction = false := by
  cases h <;> rfl

/-- An expression that reduces nothing produces a series if it is not too deep and has a signal on
the grid of the period. -/
theorem Expression.evaluate_eq_ok_iff {e : Expression} {settings : Settings} {inputs : Inputs}
    {period : Period} {output : OutputSpec} {series : TimeSeries}
    (h : e.function.isReduction = false) :
    e.evaluate settings inputs period output = .ok series ↔
      e.depth ≤ settings.maxFormulaDepth ∧
        ∃ grid w s, Grid.build period output.resolution = .ok grid ∧
          Workspace.prepare grid inputs e.seriesNames = .ok w ∧ e.eval w = .ok s ∧
            series = outputSeries settings output none grid (s.samples grid.length) := by
  unfold evaluate
  constructor
  · intro he
    split at he
    · cases he
    · rename_i hdepth
      obtain ⟨grid, hgrid, he⟩ := bind_eq_ok.1 he
      obtain ⟨s, hs, he⟩ := bind_eq_ok.1 he
      obtain ⟨w, hw, hs⟩ := bind_eq_ok.1 hs
      rw [h, Bool.false_and] at he
      cases he
      exact ⟨Nat.le_of_not_lt hdepth, grid, w, s, hgrid, hw, hs, rfl⟩
  · rintro ⟨hdepth, grid, w, s, hgrid, hw, hs, rfl⟩
    rw [if_neg (Nat.not_lt.2 hdepth), hgrid, ok_bind, signal, hw, ok_bind, hs, ok_bind, h,
      Bool.false_and]
    rfl

/-- An expression that is lowered and lifted again produces the same series, provided that no part
of the formula is changed by merging factors; it fails if a merged factor is not finite.  The
condition is exact for the parts of the formula: it holds where each of them has the signal of what
it is lifted to. -/
theorem Expression.evaluate_lift_of_lower {e : Expression} {f : Formula} {settings : Settings}
    {inputs : Inputs} {period : Period} {output : OutputSpec} {series : TimeSeries}
    (h : e.lower [] = .ok f)
    (hok : e.evaluate settings inputs period output = .ok series) :
    ∃ grid w, Grid.build period output.resolution = .ok grid ∧
      Workspace.prepare grid inputs e.seriesNames = .ok w ∧
      (f.MergesIn w ↔ ∀ g, Formula.Part g f → g.lift.eval w = g.eval w) ∧
      (f.MergesIn w → f.lift.evaluate settings inputs period output = .ok series) ∧
      (∀ g op c name factor, Formula.Part g f → g.IsScaled op c name factor →
        (factor * c.value).isFinite = false →
          ∃ error, f.lift.evaluate settings inputs period output = .error error) := by
  have hl := Expression.lower_eq_ok_iff.1 h
  obtain ⟨hdepth, grid, w, s, hgrid, hw, hs, rfl⟩ :=
    (evaluate_eq_ok_iff hl.isReduction).1 hok
  rw [← hl.eval_eq w] at hs
  -- both expressions look up the same series, and evaluate in the same workspace
  rw [← hl.seriesNames_lift] at hw ⊢
  refine ⟨grid, w, hgrid, hw, f.mergesIn_iff_eval_lift hl.metersFinite hs, ?_, ?_⟩
  · intro hmerge
    refine (evaluate_eq_ok_iff f.isReduction_lift).2
      ⟨Nat.le_trans hl.depth_lift_le hdepth, grid, w, s, hgrid, hw, ?_, rfl⟩
    exact f.eval_lift hmerge hl.metersFinite hs
  · intro g op c name factor hg hscaled hinfinite
    cases he : f.lift.evaluate settings inputs period output with
    | error error => exact ⟨error, rfl⟩
    | ok series =>
      obtain ⟨_, _, w', s', _, _, hs', _⟩ := (evaluate_eq_ok_iff f.isReduction_lift).1 he
      rw [Formula.isFinite_of_eval_lift hs' hg hscaled] at hinfinite
      cases hinfinite

/-- Three times a tenth of `x`. -/
def Expression.tenthTripled : Expression :=
  .apply (.extension "mul")
    [.expression (.apply (.extension "mul") [.series "x" 1, .constant 0.1]), .constant 3]

/-- `Expression.tenthTripled` as a formula. -/
def Formula.tenthTripled : Formula :=
  .mul [.nested (.mul [.variable .x, .constant .tenth]),
    .constant ⟨"3", 3, by decide, by decide, .inl rfl⟩]

/-- One hour in a single step. -/
def Grid.oneHour : Grid :=
  ⟨⟨⟨0, 0⟩, ⟨3600, 0⟩⟩, .hour, 1, by decide, by decide⟩

/-- One hour with a single quantity. -/
def Inputs.oneHour : Inputs :=
  [("x", .ofValues "x" "KWH" Grid.oneHour.resolution ⟨0, 0⟩ [1e13])]

/-- One hour of energy. -/
def OutputSpec.oneHour : OutputSpec :=
  ⟨none, "KWH", Grid.oneHour.resolution⟩

/-- Merged to one, the factors 0.1 and 3 are rounded up, and the lifted formula produces more. -/
theorem Expression.evaluate_lift_of_lower_tenthTripled :
    Expression.tenthTripled.lower [] = .ok .tenthTripled ∧
      ∃ series grid w,
        Expression.tenthTripled.evaluate default .oneHour Grid.oneHour.period .oneHour
          = .ok series ∧
        Workspace.prepare grid .oneHour Expression.tenthTripled.seriesNames = .ok w ∧
        ¬ Formula.tenthTripled.MergesIn w ∧
        Formula.tenthTripled.lift.evaluate default .oneHour Grid.oneHour.period .oneHour
          ≠ .ok series := by
  have hlower : Expression.tenthTripled.lower [] = .ok .tenthTripled := rfl
  have hgrid : Grid.build Grid.oneHour.period Grid.oneHour.resolution = .ok .oneHour :=
    Grid.build_eq_ok_iff.2 ⟨rfl, rfl⟩
  have hnames : Expression.tenthTripled.seriesNames = ["x"] := by decide +kernel
  have hlifted : Formula.tenthTripled.lift.seriesNames = ["x"] := by decide +kernel
  have hok : Expression.tenthTripled.evaluate default .oneHour Grid.oneHour.period .oneHour
      = .ok (outputSeries default .oneHour none .oneHour #[⟨1e13 * 0.1 * 3, .validated⟩]) :=
    (evaluate_eq_ok_iff rfl).2 ⟨by decide, _, _, _, hgrid, by rw [hnames]; rfl, rfl, rfl⟩
  have hlift :
      Formula.tenthTripled.lift.evaluate default .oneHour Grid.oneHour.period .oneHour
        = .ok (outputSeries default .oneHour none .oneHour
          (((Signal.series #[⟨1e13, .validated⟩]).scale (1 * 0.1 * 3)).samples 1)) :=
    (evaluate_eq_ok_iff (Formula.isReduction_lift _)).2
      ⟨by decide, _, _, _, hgrid, by rw [hlifted]; rfl, rfl, rfl⟩
  have hne : Formula.tenthTripled.lift.evaluate default .oneHour Grid.oneHour.period .oneHour
      ≠ .ok (outputSeries default .oneHour none .oneHour #[⟨1e13 * 0.1 * 3, .validated⟩]) := by
    rw [hlift]
    intro h
    have hquantities := congrArg TimeSeries.quantities (Except.ok.inj h)
    exact absurd hquantities (by decide +kernel)
  obtain ⟨grid, w, _, hw, _, hmerge, _⟩ := evaluate_lift_of_lower hlower hok
  exact ⟨hlower, _, grid, w, hok, hw, fun h => hne (hmerge h), hne⟩

end EnergyFormula
