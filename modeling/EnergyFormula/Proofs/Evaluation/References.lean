import EnergyFormula.Proofs.Evaluation.Branches
import EnergyFormula.Proofs.Evaluation.Failures

/-!
# The series that an evaluation depends on

A formula refers to the series of its meters and variables, an expression to those of its
parameters, at any depth (`Formula.RefersTo`, `Expression.RefersTo`).  These are the names that are
looked up before anything is evaluated, no more (`Formula.mem_names_iff`,
`Expression.mem_seriesNames_iff`).

* No other input matters: not its values, not its defects, not its absence
  (`Formula.signal_congr`, `Expression.signal_congr`, `windowSamples_congr`).
* No further series is looked up: with these at hand a tree fails for other reasons than an
  unresolved reference (`Formula.failsOnly_eval`, `Expression.failsOnly_eval`).

Both together are `evaluation_of_references`.
-/

namespace EnergyFormula

/-! ### References -/

/-- The series with a name is a meter or a variable of the formula, at any depth. -/
inductive Formula.RefersTo : Formula → String → Prop
  | meter {f : Formula} {m : MeterOperand} : Operand.meter m ∈ f.operands → RefersTo f m.meter.text
  | variable {f : Formula} {v : FormulaVariable} : Operand.variable v ∈ f.operands →
      RefersTo f v.text
  | nested {f g : Formula} {name : String} : Operand.nested g ∈ f.operands → RefersTo g name →
      RefersTo f name

/-- The series with a name is a parameter of the expression, at any depth. -/
inductive Expression.RefersTo : Expression → String → Prop
  | series {e : Expression} {name : String} {factor : Float} :
      Parameter.series name factor ∈ e.parameters → RefersTo e name
  | nested {e g : Expression} {name : String} : Parameter.expression g ∈ e.parameters →
      RefersTo g name → RefersTo e name

theorem Operand.mem_listReferences_iff {r : Reference} {ops : List Operand} :
    r ∈ listReferences ops ↔ ∃ op ∈ ops, r ∈ op.allReferences := by
  constructor
  · intro h
    induction ops with
    | nil => cases h
    | cons op rest ih =>
      rcases List.mem_append.1 h with h | h
      · exact ⟨op, List.mem_cons_self, h⟩
      · obtain ⟨op', hop', hr⟩ := ih h
        exact ⟨op', List.mem_cons_of_mem op hop', hr⟩
  · rintro ⟨op, hop, hr⟩
    exact mem_listReferences hr hop

/-- The names that are looked up for a formula are those that it refers to. -/
theorem Formula.mem_names_iff {f : Formula} {name : String} : name ∈ f.names ↔ f.RefersTo name := by
  simp only [names, List.mem_map, mem_references]
  constructor
  · rintro ⟨r, hr, rfl⟩
    induction f using Formula.induction with
    | step f ih =>
      rw [allReferences_eq, Operand.mem_listReferences_iff] at hr
      obtain ⟨op, hop, hr⟩ := hr
      cases op with
      | meter m =>
        obtain rfl := List.mem_singleton.1 hr
        exact .meter hop
      | constant c => cases hr
      | «variable» v =>
        obtain rfl := List.mem_singleton.1 hr
        exact .variable hop
      | nested g => exact .nested hop (ih g hop hr)
  · intro h
    have hmem : ∀ {f : Formula} {op : Operand} {r : Reference}, op ∈ f.operands →
        r ∈ op.allReferences → r ∈ f.allReferences := by
      intro f op r hop hr
      rw [allReferences_eq]
      exact Operand.mem_listReferences hr hop
    induction h with
    | @meter f m hop => exact ⟨.meter m.meter, hmem hop List.mem_cons_self, rfl⟩
    | @«variable» f v hop => exact ⟨.variable v, hmem hop List.mem_cons_self, rfl⟩
    | nested hop _ ih =>
      obtain ⟨r, hr, rfl⟩ := ih
      exact ⟨r, hmem hop hr, rfl⟩

theorem Parameter.mem_listNames_iff {name : String} {ps : List Parameter} :
    name ∈ listNames ps ↔ ∃ p ∈ ps, name ∈ p.allNames := by
  constructor
  · intro h
    induction ps with
    | nil => cases h
    | cons p rest ih =>
      rcases List.mem_append.1 h with h | h
      · exact ⟨p, List.mem_cons_self, h⟩
      · obtain ⟨q, hq, hname⟩ := ih h
        exact ⟨q, List.mem_cons_of_mem p hq, hname⟩
  · rintro ⟨p, hp, hname⟩
    exact mem_listNames hname hp

/-- The names that are looked up for an expression are those that it refers to. -/
theorem Expression.mem_seriesNames_iff {e : Expression} {name : String} :
    name ∈ e.seriesNames ↔ e.RefersTo name := by
  rw [mem_seriesNames]
  constructor
  · intro h
    induction e using Expression.induction with
    | step function ps ih =>
      obtain ⟨p, hp, hname⟩ := Parameter.mem_listNames_iff.1 h
      cases p with
      | constant value => cases hname
      | series other factor =>
        obtain rfl := List.mem_singleton.1 hname
        exact .series hp
      | literal value => cases hname
      | expression g => exact .nested hp (ih g hp hname)
  · intro h
    induction h with
    | @series e name factor hp =>
      cases e
      exact Parameter.mem_listNames_iff.2 ⟨_, hp, List.mem_cons_self⟩
    | @nested e g name hp _ ih =>
      cases e
      exact Parameter.mem_listNames_iff.2 ⟨_, hp, ih⟩

/-! ### Inputs that agree -/

/-- The inputs have the same series under each of these names, or both none. -/
def Inputs.AgreeOn (inputs inputs' : Inputs) (names : String → Prop) : Prop :=
  ∀ name, names name → inputs.lookup name = inputs'.lookup name

section Agree

variable {inputs inputs' : Inputs} {grid : Grid}

/-- The workspace depends on the inputs with the names that are looked up. -/
theorem Workspace.prepare_congr {names : List String}
    (h : ∀ name ∈ names, inputs.lookup name = inputs'.lookup name) :
    prepare grid inputs names = prepare grid inputs' names := by
  have halign : alignAll grid inputs names = alignAll grid inputs' names := by
    induction names with
    | nil => rfl
    | cons name rest ih =>
      obtain ⟨hname, hrest⟩ := List.forall_mem_cons.1 h
      rw [alignAll, alignAll, alignNamed, alignNamed, hname, ih hrest]
  rw [prepare, prepare, halign]

theorem Formula.signal_congr {f : Formula} (h : inputs.AgreeOn inputs' f.RefersTo) :
    f.signal inputs grid = f.signal inputs' grid := by
  rw [signal, signal, Workspace.prepare_congr fun name hname => h name (mem_names_iff.1 hname)]

theorem Formula.samples_congr {f : Formula} (maxDepth : Nat)
    (h : inputs.AgreeOn inputs' f.RefersTo) :
    f.samples maxDepth inputs grid = f.samples maxDepth inputs' grid := by
  rw [samples, samples, signal_congr h]

theorem Expression.signal_congr {e : Expression} (h : inputs.AgreeOn inputs' e.RefersTo) :
    e.signal inputs grid = e.signal inputs' grid := by
  rw [signal, signal, Workspace.prepare_congr fun name hname => h name (mem_seriesNames_iff.1 hname)]

/-- A slice without data depends on no input. -/
theorem TimeSlice.samples_congr {s : TimeSlice} (settings : Settings)
    (h : s.quality = .valid → inputs.AgreeOn inputs' s.formula.RefersTo) :
    s.samples settings inputs grid = s.samples settings inputs' grid := by
  unfold samples
  cases hquality : s.quality with
  | valid => rw [Formula.samples_congr settings.maxFormulaDepth (h hquality)]
  | noData => rfl

theorem windowSamples_congr {settings : Settings} {resolution : Resolution}
    {windows : List SliceWindow} (h : ∀ w ∈ windows, w.slice.quality = .valid →
      inputs.AgreeOn inputs' w.slice.formula.RefersTo) :
    windowSamples settings inputs resolution windows =
      windowSamples settings inputs' resolution windows := by
  induction windows with
  | nil => rfl
  | cons w rest ih =>
    obtain ⟨hw, hrest⟩ := List.forall_mem_cons.1 h
    rw [windowSamples, windowSamples, ih hrest]
    cases Grid.build w.window resolution with
    | error e => rfl
    | ok part => rw [ok_bind, ok_bind, TimeSlice.samples_congr settings hw]

/-- Of the slices of a location those with data that overlap the period are read. -/
theorem FormulaLocation.evaluate_congr {l : FormulaLocation} {settings : Settings}
    {period : Period} {output : OutputSpec}
    (h : ∀ s ∈ l.slicesOverlapping period, s.quality = .valid →
      inputs.AgreeOn inputs' s.formula.RefersTo) :
    l.evaluate settings inputs period output = l.evaluate settings inputs' period output := by
  unfold evaluate
  cases hgrid : Grid.build period output.resolution with
  | error e => rfl
  | ok grid =>
    rw [ok_bind, ok_bind]
    cases hwindows : coverWindows l.location grid period.start (l.slicesOverlapping period) with
    | error e => rfl
    | ok windows =>
      have hparts := isPart_of_coverWindows hwindows
      rw [ok_bind, ok_bind, windowSamples_congr]
      intro w hw
      obtain ⟨s, hs, rfl, _⟩ := exists_left_of_forall₂ hparts w hw
      exact h _ hs

end Agree

/-! ### Failures with all series at hand -/

/-- The failure does not lie in a reference that is unresolved. -/
def EvalError.IsResolved (e : EvalError) : Prop :=
  e.code ≠ .unresolvedTimeSeriesReference

theorem EvalError.IsResolved.of_code {e : EvalError} (code : ErrorCode) (h : e.code = code)
    (hcode : code ≠ .unresolvedTimeSeriesReference) : e.IsResolved :=
  fun he => hcode (h.symm.trans he)

/-- The workspace has a series with each of these names. -/
def Workspace.HasSeries (w : Workspace) (names : String → Prop) : Prop :=
  ∀ name, names name → ∃ s, w.series name = .ok s

section Failures

variable {w : Workspace}

theorem Workspace.HasSeries.failsOnly {names : String → Prop} {P : EvalError → Prop} {name : String}
    (h : w.HasSeries names) (hname : names name) : FailsOnly P (w.series name) := by
  obtain ⟨s, hs⟩ := h name hname
  rw [hs]
  exact .ok s

/-- A workspace has every series that it was prepared with. -/
theorem Workspace.hasSeries_prepare {grid : Grid} {inputs : Inputs} {names : List String}
    (hw : prepare grid inputs names = .ok w) : w.HasSeries (· ∈ names) := by
  intro name hname
  obtain ⟨samples, hsamples, _⟩ := series_eq_ok_of_mem hw hname
  exact ⟨.series samples, hsamples⟩

theorem Operand.failsOnly_evalAll {P : EvalError → Prop} {ops : List Operand}
    (h : ∀ op ∈ ops, FailsOnly P (op.eval w)) : FailsOnly P (evalAll w ops) := by
  induction ops with
  | nil => exact .ok _
  | cons op rest ih =>
    obtain ⟨hop, hrest⟩ := List.forall_mem_cons.1 h
    exact hop.bind fun _ _ => (ih hrest).bind fun _ _ => .ok _

/-- An operator without operands fails for that. -/
theorem Formula.eval_of_operands_eq_nil {f : Formula} (h : f.operands = []) :
    ∃ operator, f.eval w = .error (.of (.emptyOperands operator)) := by
  cases f with
  | add ops | mul ops | div ops =>
    obtain rfl : ops = [] := h
    exact ⟨_, rfl⟩
  | sub a b => cases h
  | pos op => cases h
  | operand op => cases h

/-- With the series at hand that it refers to, a formula fails for its operands or a divisor. -/
theorem Formula.failsOnly_eval (f : Formula) (h : w.HasSeries f.RefersTo) :
    FailsOnly EvalError.IsResolved (f.eval w) := by
  induction f using Formula.induction with
  | step f ih =>
    by_cases hops : f.operands = []
    · obtain ⟨operator, hempty⟩ := eval_of_operands_eq_nil (w := w) hops
      rw [hempty]
      exact .error (.of_code .emptyOperandList rfl (by decide))
    · rw [eval_eq_applyTo w hops]
      refine (Operand.failsOnly_evalAll fun op hop => ?_).bind fun signals _ =>
        (DomainFunction.failsOnly_applyTo _ signals).imp ?_
      · cases op with
        | meter m => exact (h.failsOnly (.meter hop)).bind fun _ _ => .ok _
        | constant c => exact .ok _
        | «variable» v => exact h.failsOnly (.variable hop)
        | nested g => exact ih g hop fun name hname => h name (.nested hop hname)
      · rintro e (hcode | hcode)
        · exact .of_code _ hcode (by decide)
        · exact .of_code _ hcode (by decide)

/-- With the series at hand that it refers to, an expression fails for its parameters or a
divisor. -/
theorem Expression.failsOnly_eval (e : Expression) (h : w.HasSeries e.RefersTo) :
    FailsOnly EvalError.IsResolved (e.eval w) := by
  induction e using Expression.induction with
  | step function ps ih =>
    refine failsOnly_apply ?_ (fun p hp index => Parameter.failsOnly_eval ?_ ?_ ?_) fun signals _ =>
      (DomainFunction.failsOnly_applyTo function signals).imp ?_
    · rintro e (hcode | hcode)
      · exact .of_code _ hcode (by decide)
      · exact .of_code _ hcode (by decide)
    · exact fun e hcode => .of_code _ hcode (by decide)
    · rintro name factor rfl
      exact h.failsOnly (.series hp)
    · rintro g rfl
      exact ih g hp fun name hname => h name (.nested hp hname)
    · rintro e (hcode | hcode)
      · exact .of_code _ hcode (by decide)
      · exact .of_code _ hcode (by decide)

end Failures

/-! ### Main result -/

/-- On inputs that agree on the series that a formula refers to, its evaluation has the same outcome,
be it a series or a failure.  The same holds of an expression, and of a location with inputs that
agree on what its slices with data that overlap the period refer to.  Once the series are prepared
that a formula or an expression looks up, it fails for no unresolved reference. -/
theorem evaluation_of_references (settings : Settings) (period : Period) (output : OutputSpec)
    (inputs inputs' : Inputs) :
    (∀ f : Formula, inputs.AgreeOn inputs' f.RefersTo →
      f.evaluate settings inputs period output = f.evaluate settings inputs' period output) ∧
    (∀ e : Expression, inputs.AgreeOn inputs' e.RefersTo →
      e.evaluate settings inputs period output = e.evaluate settings inputs' period output) ∧
    (∀ l : FormulaLocation,
      (∀ s ∈ l.slicesOverlapping period, s.quality = .valid →
        inputs.AgreeOn inputs' s.formula.RefersTo) →
        l.evaluate settings inputs period output = l.evaluate settings inputs' period output) ∧
    (∀ (f : Formula) (grid : Grid) (w : Workspace), Workspace.prepare grid inputs f.names = .ok w →
      ∀ error, f.eval w = .error error → error.code ≠ .unresolvedTimeSeriesReference) ∧
    (∀ (e : Expression) (grid : Grid) (w : Workspace),
      Workspace.prepare grid inputs e.seriesNames = .ok w →
        ∀ error, e.eval w = .error error → error.code ≠ .unresolvedTimeSeriesReference) := by
  refine ⟨fun f h => ?_, fun e h => ?_, fun l h => l.evaluate_congr h, fun f grid w hw => ?_,
    fun e grid w hw => ?_⟩
  · simp only [Formula.evaluate, Formula.samples_congr settings.maxFormulaDepth h]
  · simp only [Expression.evaluate, Expression.signal_congr h]
  · have hseries := Workspace.hasSeries_prepare hw
    exact f.failsOnly_eval fun name hname => hseries name (Formula.mem_names_iff.2 hname)
  · have hseries := Workspace.hasSeries_prepare hw
    exact e.failsOnly_eval fun name hname => hseries name (Expression.mem_seriesNames_iff.2 hname)

/-- The inputs together with a series that has no interval. -/
def Inputs.disturbed (inputs : Inputs) : Inputs :=
  ("y", .ofValues "y" "KWH" .hour ⟨0, 0⟩ []) :: inputs

/-- A series without intervals matters to nothing that refers to another one: the reciprocal fails in
the second hour as before, and not for a reference. -/
theorem evaluation_of_references_disturbed :
    Inputs.fading.AgreeOn Inputs.fading.disturbed Formula.reciprocal.RefersTo ∧
      Formula.reciprocal.evaluate default .fading .twoHours .hourly =
        Formula.reciprocal.evaluate default Inputs.fading.disturbed .twoHours .hourly ∧
      Inputs.fading.AgreeOn Inputs.fading.disturbed Expression.positiveReciprocal.RefersTo ∧
      Expression.positiveReciprocal.evaluate default .fading .twoHours .hourly =
        Expression.positiveReciprocal.evaluate default Inputs.fading.disturbed .twoHours .hourly ∧
      (∀ s ∈ FormulaLocation.takenOver.slicesOverlapping .twoHours, s.quality = .valid →
        Inputs.fading.AgreeOn Inputs.fading.disturbed s.formula.RefersTo) ∧
      FormulaLocation.takenOver.evaluate default .fading .twoHours .hourly =
        FormulaLocation.takenOver.evaluate default Inputs.fading.disturbed .twoHours .hourly ∧
      (∃ w error, Workspace.prepare .twoHours .fading Formula.reciprocal.names = .ok w ∧
        Formula.reciprocal.eval w = .error error ∧
          error.code ≠ .unresolvedTimeSeriesReference) ∧
      ∃ w error, Workspace.prepare .twoHours .fading Expression.positiveReciprocal.seriesNames =
          .ok w ∧
        Expression.positiveReciprocal.eval w = .error error ∧
          error.code ≠ .unresolvedTimeSeriesReference := by
  have hagree : ∀ names : String → Prop, (∀ name, names name → name ∈ ["x"]) →
      Inputs.fading.AgreeOn Inputs.fading.disturbed names := by
    intro names hnames name hname
    obtain rfl := List.mem_singleton.1 (hnames name hname)
    rfl
  have hformulaNames : Formula.reciprocal.names = ["x"] := by decide +kernel
  have hexpressionNames : Expression.positiveReciprocal.seriesNames = ["x"] :=
    Expression.seriesNames_of_pairwise (by decide +kernel)
  have hformula : Inputs.fading.AgreeOn Inputs.fading.disturbed Formula.reciprocal.RefersTo :=
    hagree _ fun name hname => hformulaNames ▸ Formula.mem_names_iff.2 hname
  have hexpression : Inputs.fading.AgreeOn Inputs.fading.disturbed
      Expression.positiveReciprocal.RefersTo :=
    hagree _ fun name hname => hexpressionNames ▸ Expression.mem_seriesNames_iff.2 hname
  have hlocation : ∀ s ∈ FormulaLocation.takenOver.slicesOverlapping .twoHours,
      s.quality = .valid → Inputs.fading.AgreeOn Inputs.fading.disturbed s.formula.RefersTo := by
    intro s hs _
    obtain rfl := List.mem_singleton.1 (FormulaLocation.mem_slicesOverlapping_iff.1 hs).1
    have hnames : TimeSlice.takenOver.formula.names = ["x"] := by decide +kernel
    exact hagree _ fun name hname => hnames ▸ Formula.mem_names_iff.2 hname
  have hprepared : ∃ w, Workspace.prepare .twoHours .fading ["x"] = .ok w ∧
      Formula.reciprocal.eval w = .error (.atPosition .divisionByZero (Grid.position 1)) ∧
        Expression.positiveReciprocal.eval w =
          .error (.atPosition .divisionByZero (Grid.position 1)) :=
    ⟨_, rfl, rfl, rfl⟩
  obtain ⟨w, hw, hfailed, hfailed'⟩ := hprepared
  obtain ⟨hformulas, hexpressions, hlocations, hresolved, hresolved'⟩ :=
    evaluation_of_references default .twoHours .hourly .fading Inputs.fading.disturbed
  rw [← hformulaNames] at hw
  have hw' := hw
  rw [hformulaNames, ← hexpressionNames] at hw'
  exact ⟨hformula, hformulas _ hformula, hexpression, hexpressions _ hexpression, hlocation,
    hlocations _ hlocation, ⟨w, _, hw, hfailed, hresolved _ _ w hw _ hfailed⟩,
    ⟨w, _, hw', hfailed', hresolved' _ _ w hw' _ hfailed'⟩⟩

end EnergyFormula
