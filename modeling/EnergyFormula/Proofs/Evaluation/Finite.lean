import EnergyFormula.Proofs.Evaluation.Delivery
import EnergyFormula.Proofs.Evaluation.Overflow

/-!
# Finite series

Only numbers that are not finite themselves, and operations that overflow, make numbers that are not
finite.  What is put in is finite (`TimeSeries.isFinite_of_checkEvaluable`), so a series that is
produced is finite unless an input overflows in its sum or an operation does
(`finite_unless_overflow`).  A series that is not finite is produced all the same; nothing can be
calculated with it, and its document cannot be read.
-/

namespace EnergyFormula

/-! ### Inputs -/

/-- The quantities of a row of intervals of the series. -/
def TimeSeries.quantitiesFrom (series : TimeSeries) (first count : Nat) : List Float :=
  (series.intervals.extract first (first + count)).toList.map Interval.quantity

/-- The quantities that an input has in an interval of the resolution are finite, and their sum is
not. -/
def Inputs.Overflows (inputs : Inputs) (resolution : Resolution) (t : Instant) (name : String) :
    Prop :=
  ∃ series first, inputs.lookup name = some series ∧ series.indexAt? t = some first ∧
    let quantities :=
      series.quantitiesFrom first (resolution.seconds / series.resolution.seconds)
    Number.Overflows quantities (sumFromLeft quantities)

section Inputs

variable {inputs : Inputs} {names : List String} {resolution : Resolution} {period : Period}

/-- An input that can be brought onto a grid has a finite sample, unless its sum overflows. -/
theorem Inputs.finite_or_overflows (h : inputs.AlignWith names resolution period) {name : String}
    (hname : name ∈ names) {t : Instant} {x : Sample}
    (hx : inputs.sampleAt? resolution t name = some x) :
    x.value.isFinite = true ∨ inputs.Overflows resolution t name := by
  obtain ⟨series, hlookup, haligns⟩ := h name hname
  rw [Inputs.sampleAt?, hlookup, Option.bind_some] at hx
  obtain ⟨first, hfirst, hx⟩ := Option.bind_eq_some_iff.1 hx
  split at hx
  · cases hx
    by_cases hsum : (sumFromLeft (series.quantitiesFrom first
        (resolution.seconds / series.resolution.seconds))).isFinite = true
    · exact .inl hsum
    · right
      refine ⟨series, first, hlookup, hfirst, Number.overflows_of_not_isFinite ?_ hsum⟩
      intro q hq
      obtain ⟨i, hi, rfl⟩ := List.mem_map.1 hq
      obtain ⟨k, hk, rfl⟩ := Array.mem_extract_iff_getElem.1 (Array.mem_toList_iff.1 hi)
      exact TimeSeries.isFinite_of_checkEvaluable haligns.evaluable _ (Array.getElem_mem _)
  · cases hx

end Inputs

/-! ### Formulas -/

/-- In some interval of the grid an input of the formula overflows, or the formula does with the
numbers that the inputs have there. -/
def Formula.OverflowsOn (f : Formula) (inputs : Inputs) (grid : Grid) : Prop :=
  ∃ i < grid.length,
    (∃ name ∈ f.names, inputs.Overflows grid.resolution (grid.startOf i) name) ∨
      f.Overflows (grid.numberAt inputs i)

/-- The formula overflows on the grid of a resolution over a period. -/
def Formula.OverflowsOver (f : Formula) (inputs : Inputs) (period : Period)
    (resolution : Resolution) : Prop :=
  ∃ grid, Grid.build period resolution = .ok grid ∧ f.OverflowsOn inputs grid

/-- The samples of a formula are finite, unless it overflows. -/
theorem Formula.samples_finite_or_overflows {f : Formula} {maxDepth : Nat} {inputs : Inputs}
    {grid : Grid} {samples : Array Sample} (h : f.samples maxDepth inputs grid = .ok samples) :
    (∀ s ∈ samples, s.value.isFinite = true) ∨ f.OverflowsOn inputs grid := by
  by_cases hoverflow : f.OverflowsOn inputs grid
  · exact .inr hoverflow
  left
  intro s hs
  obtain ⟨i, hi⟩ := Array.mem_iff_getElem?.1 hs
  obtain ⟨hlt, hget⟩ := Array.getElem?_eq_some_iff.1 hi
  rw [Formula.size_samples h] at hlt
  have hsample : sampleOf samples i = s := by
    rw [sampleOf, Array.getD_eq_getD_getElem?, hi, Option.getD_some]
  obtain ⟨_, w, _, hw, _, _⟩ := samples_eq_ok_iff.1 h
  have hvalue : f.value? (grid.numberAt inputs i) = some s.value := by
    rw [value?_numberAt hw hlt, reading_prepare hw hlt, reading_of_samples h hlt, hsample]
    rfl
  -- the inputs are finite as well
  have hinput : ∀ r ∈ f.allReferences, (grid.numberAt inputs i r.name).isFinite = true := by
    intro r hr
    have hname : r.name ∈ f.names := List.mem_map.2 ⟨r, mem_references.2 hr, rfl⟩
    obtain ⟨haligns, hsamples⟩ := Workspace.exists_prepare_iff.1 ⟨w, hw⟩
    obtain ⟨x, hx⟩ := hsamples i hlt r.name hname
    rw [Grid.numberAt, Grid.inputAt, hx, Option.getD_some]
    refine (Inputs.finite_or_overflows haligns hname hx).resolve_right fun hinput => ?_
    exact hoverflow ⟨i, hlt, .inl ⟨r.name, hname, hinput⟩⟩
  exact (Formula.finite_or_overflows hinput hvalue).resolve_right fun hformula =>
    hoverflow ⟨i, hlt, .inr hformula⟩

/-! ### Expressions -/

/-- In some interval of the grid an input of the expression overflows, or the expression does with
the samples that the inputs have. -/
def Expression.OverflowsOn (e : Expression) (inputs : Inputs) (grid : Grid) : Prop :=
  ∃ i < grid.length,
    (∃ name ∈ e.seriesNames, inputs.Overflows grid.resolution (grid.startOf i) name) ∨
      e.Overflows grid.length (grid.readings inputs) i

/-- The expression overflows on the grid of a resolution over a period. -/
def Expression.OverflowsOver (e : Expression) (inputs : Inputs) (period : Period)
    (resolution : Resolution) : Prop :=
  ∃ grid, Grid.build period resolution = .ok grid ∧ e.OverflowsOn inputs grid

section Expressions

variable {e : Expression} {inputs : Inputs} {grid : Grid} {w : Workspace} {s : Signal}

/-- The workspace has the samples of the inputs. -/
theorem Workspace.gives_readings {names : List String}
    (hw : prepare grid inputs names = .ok w) :
    w.Gives (grid.readings inputs) names := by
  obtain ⟨rfl, _⟩ := fits_prepare hw
  exact fun name hname i hi => (sampleAt?_prepare hw hname hi).symm

theorem Expression.gives_allNames (hw : Workspace.prepare grid inputs e.seriesNames = .ok w) :
    w.Gives (grid.readings inputs) e.allNames :=
  fun name hname => Workspace.gives_readings hw name (mem_seriesNames.2 hname)

theorem Expression.fits_eval (hw : Workspace.prepare grid inputs e.seriesNames = .ok w)
    (hs : e.eval w = .ok s) : s.Fits grid.length := by
  obtain ⟨rfl, hfits⟩ := Workspace.fits_prepare hw
  exact (e.shows_eval hfits (gives_allNames hw) s hs).1

/-- The signal of an expression is finite in every interval, unless the expression overflows. -/
theorem Expression.eval_finite_or_overflows
    (hw : Workspace.prepare grid inputs e.seriesNames = .ok w) (hs : e.eval w = .ok s) :
    (∀ i < grid.length, (s.sampleAt i).value.isFinite = true) ∨ e.OverflowsOn inputs grid := by
  by_cases hoverflow : e.OverflowsOn inputs grid
  · exact .inr hoverflow
  left
  intro i hi
  obtain ⟨haligns, _⟩ := Workspace.exists_prepare_iff.1 ⟨w, hw⟩
  have hgives := gives_allNames hw
  obtain ⟨rfl, hfits⟩ := Workspace.fits_prepare hw
  have hfinite : FiniteIn w.grid.length (w.grid.readings inputs) e.allNames := by
    intro name hname i hi x hx
    have hname := mem_seriesNames.2 hname
    refine (Inputs.finite_or_overflows haligns hname hx).resolve_right fun hinput => ?_
    exact hoverflow ⟨i, hi, .inl ⟨name, hname, hinput⟩⟩
  refine (e.finite_or_overflows hfits hgives hfinite s hs i hi).resolve_right fun h => ?_
  exact hoverflow ⟨i, hi, .inr h⟩

/-- The samples of a signal that fits are finite if it is in every interval. -/
theorem Signal.isFinite_samples {n : Nat} (hs : s.Fits n)
    (h : ∀ i < n, (s.sampleAt i).value.isFinite = true) :
    ∀ x ∈ s.samples n, x.value.isFinite = true := by
  intro x hx
  obtain ⟨i, hi⟩ := Array.mem_iff_getElem?.1 hx
  obtain ⟨hlt, _⟩ := Array.getElem?_eq_some_iff.1 hi
  rw [Signal.size_samples hs] at hlt
  have hsample : sampleOf (s.samples n) i = x := by
    rw [sampleOf, Array.getD_eq_getD_getElem?, hi, Option.getD_some]
  rw [← hsample, Signal.sampleOf_samples hlt]
  exact h i hlt

end Expressions

/-- The grid of a single interval has one, and then every grid over the period has some. -/
theorem Grid.length_single {period : Period} {point : Grid}
    (h : Grid.single period = .ok point) :
    point.period = period ∧ point.length = 1 ∧
      ∀ grid : Grid, grid.period = period → 0 < grid.length := by
  unfold Grid.single at h
  split at h
  · rename_i r hr
    obtain ⟨rfl, hresolution⟩ := Grid.build_eq_ok_iff.1 h
    have hseconds := Resolution.seconds_of_ofSeconds hr
    have hpoint := point.nanos_period
    have hpositive := r.positive
    rw [hresolution] at hpoint
    -- the step is as long as the period
    have hnanos : point.period.nanos = (point.length * r.seconds * Time.nanosPerSecond : Nat) := by
      rw [hpoint, Resolution.nanos, Nat.mul_assoc]
    rw [Period.seconds, hnanos, Int.natCast_mul, Int.mul_tdiv_cancel _ (by decide)] at hseconds
    have hlength : point.length * r.seconds = r.seconds := Int.ofNat_inj.1 hseconds
    have hone : point.length = 1 :=
      Nat.eq_of_mul_eq_mul_right hpositive (by rw [hlength, Nat.one_mul])
    refine ⟨rfl, hone, fun grid hperiod => Nat.pos_of_ne_zero fun hzero => ?_⟩
    have hgrid := grid.nanos_period
    rw [hperiod, hnanos, hlength, hzero, Nat.zero_mul] at hgrid
    have := Nat.mul_pos hpositive (show 0 < Time.nanosPerSecond by decide)
    omega
  · cases h

/-- A reduction makes a single sample of its parameter. -/
theorem DomainFunction.isScalar_applyTo {function : DomainFunction} {signals : List Signal}
    {s : Signal} (hreduction : function.isReduction = true)
    (h : function.applyTo signals = .ok s) : s.isScalar = true := by
  have hreduce : ∀ (pick : Float → Float → Float) (t : Signal), (t.reduce pick).isScalar = true := by
    intro pick t
    cases t <;> rfl
  cases function with
  | intervalMax =>
    match signals, h with
    | [t], h =>
      cases h
      exact hreduce Signal.greater t
  | intervalMin =>
    match signals, h with
    | [t], h =>
      cases h
      exact hreduce Signal.lesser t
  | _ => cases hreduction

theorem Expression.isScalar_eval {e : Expression} {w : Workspace} {s : Signal}
    (hreduction : e.function.isReduction = true) (h : e.eval w = .ok s) : s.isScalar = true := by
  obtain ⟨function, ps⟩ := e
  have hbranch : function ≠ .conditionalBranch := by
    rintro rfl
    cases hreduction
  obtain ⟨_, signals, _, h⟩ := (eval_apply_eq_ok_iff hbranch).1 h
  exact DomainFunction.isScalar_applyTo hreduction h

/-- An expression produces its samples on the grid of the period, and a reduction the one that it
has on the grid of a single interval. -/
theorem Expression.evaluate_eq_ok {e : Expression} {settings : Settings} {inputs : Inputs}
    {period : Period} {output : OutputSpec} {series : TimeSeries}
    (h : e.evaluate settings inputs period output = .ok series) :
    ∃ grid w s, Grid.build period output.resolution = .ok grid ∧
      Workspace.prepare grid inputs e.seriesNames = .ok w ∧ e.eval w = .ok s ∧
        ((e.function.isReduction = false ∧
          series = outputSeries settings output none grid (s.samples grid.length)) ∨
          (e.function.isReduction = true ∧ ∃ x point, s = .scalar x ∧
            Grid.single period = .ok point ∧
              series = outputSeries settings output none point #[x])) := by
  unfold evaluate at h
  split at h
  · cases h
  obtain ⟨grid, hgrid, h⟩ := bind_eq_ok.1 h
  obtain ⟨s, hs, h⟩ := bind_eq_ok.1 h
  obtain ⟨w, hw, hs⟩ := bind_eq_ok.1 hs
  refine ⟨grid, w, s, hgrid, hw, hs, ?_⟩
  cases hreduction : e.function.isReduction with
  | true =>
    have hscalar := isScalar_eval hreduction hs
    rw [hreduction, hscalar] at h
    obtain ⟨point, hpoint, h⟩ := bind_eq_ok.1 h
    cases h
    cases s with
    | scalar x => exact .inr ⟨rfl, x, point, rfl, hpoint, rfl⟩
    | series samples => cases hscalar
  | false =>
    rw [hreduction] at h
    cases h
    exact .inl ⟨rfl, rfl⟩

/-! ### Slices and locations -/

/-- The slice has data, and its formula overflows over a period. -/
def TimeSlice.OverflowsOver (s : TimeSlice) (inputs : Inputs) (period : Period)
    (resolution : Resolution) : Prop :=
  s.quality = .valid ∧ s.formula.OverflowsOver inputs period resolution

/-- A slice of the location overflows over the part of the period in which it is valid. -/
def FormulaLocation.OverflowsOver (l : FormulaLocation) (inputs : Inputs) (period : Period)
    (resolution : Resolution) : Prop :=
  ∃ s ∈ l.timeSlices, ∃ window, s.validity.intersect? period = some window ∧
    s.OverflowsOver inputs window resolution

/-- The samples of a slice are finite, unless it overflows. -/
theorem TimeSlice.samples_finite_or_overflows {s : TimeSlice} {settings : Settings}
    {inputs : Inputs} {grid : Grid} {samples : Array Sample}
    (h : s.samples settings inputs grid = .ok samples) :
    (∀ x ∈ samples, x.value.isFinite = true) ∨
      s.OverflowsOver inputs grid.period grid.resolution := by
  cases hquality : s.quality with
  | noData =>
    rw [samples_of_noData hquality] at h
    cases h
    left
    intro x hx
    obtain ⟨_, rfl⟩ := Array.mem_replicate.1 hx
    decide +kernel
  | valid =>
    have hformula := (samples_eq_ok_iff hquality).1 h
    refine (Formula.samples_finite_or_overflows hformula).imp_right fun hoverflow => ?_
    exact ⟨hquality, grid, Grid.build_eq_ok_iff.2 ⟨rfl, rfl⟩, hoverflow⟩

theorem FormulaLocation.samples_finite_or_overflows {l : FormulaLocation} {settings : Settings}
    {inputs : Inputs} {grid : Grid} {resolution : Resolution} {windows : List SliceWindow}
    {samples : Array Sample}
    (hwindows : coverWindows l.location grid grid.period.start
      (l.slicesOverlapping grid.period) = .ok windows)
    (hsamples : windowSamples settings inputs resolution windows = .ok samples) :
    (∀ x ∈ samples, x.value.isFinite = true) ∨ l.OverflowsOver inputs grid.period resolution := by
  by_cases hoverflow : l.OverflowsOver inputs grid.period resolution
  · exact .inr hoverflow
  left
  intro x hx
  obtain ⟨w, hw, part, own, hpart, hown, hx⟩ := mem_windowSamples hsamples hx
  obtain ⟨s, hs, rfl, hwindow⟩ := exists_left_of_forall₂ (isPart_of_coverWindows hwindows) w hw
  obtain ⟨hperiod, hresolution⟩ := Grid.build_eq_ok_iff.1 hpart
  refine (TimeSlice.samples_finite_or_overflows hown).resolve_right (fun h => ?_) x hx
  rw [hperiod, hresolution] at h
  exact hoverflow ⟨w.slice, (mem_slicesOverlapping_iff.1 hs).1, w.window, hwindow, h⟩

/-! ### Main result -/

/-- The series is finite unless numbers overflow.  In the regular case it can be calculated with
exactly if it is finite; in the calendar it can be read back from its document if it is, and its
document is refused if it is not. -/
structure TimeSeries.FiniteUnless (s : TimeSeries) (overflow regular : Prop) : Prop where
  finite_or : s.IsFinite ∨ overflow
  evaluable_iff : regular → (s.checkEvaluable = .ok () ↔ s.IsFinite)
  read_back : regular → s.period.InCalendar → s.IsFinite → TimeSeries.read s.write = .ok s
  refused : regular → s.period.InCalendar → ¬ s.IsFinite →
    ∃ y, TimeSeries.read s.write = .error (.notFinite y)

theorem finiteUnless_outputSeries {settings : Settings} {output : OutputSpec}
    {location : Option LocationId} {grid : Grid} {samples : Array Sample} {overflow regular : Prop}
    (hfinite : (∀ x ∈ samples, x.value.isFinite = true) ∨ overflow)
    (hregular : regular → grid.period.OutsideLeaps ∧ samples.size = grid.length) :
    (outputSeries settings output location grid samples).FiniteUnless overflow regular where
  finite_or := hfinite.imp_left isFinite_outputSeries_iff.2
  evaluable_iff h := checkEvaluable_outputSeries_iff (hregular h).1 (hregular h).2
  read_back h hcalendar := TimeSeries.read_write
    (inCalendar_outputSeries (hregular h).1 hcalendar (hregular h).2)
  refused h hcalendar := TimeSeries.read_write_eq_error
    (inCalendar_outputSeries (hregular h).1 hcalendar (hregular h).2)

section Delivered

variable {settings : Settings} {inputs : Inputs} {period : Period} {output : OutputSpec}
  {series : TimeSeries}

theorem Formula.finiteUnless_of_evaluate {f : Formula}
    (h : f.evaluate settings inputs period output = .ok series) :
    series.FiniteUnless (f.OverflowsOver inputs period output.resolution) period.OutsideLeaps := by
  obtain ⟨grid, samples, hgrid, hsamples, rfl⟩ := evaluate_eq_ok_iff.1 h
  obtain ⟨rfl, _⟩ := Grid.build_eq_ok_iff.1 hgrid
  refine finiteUnless_outputSeries ?_ fun hregular => ⟨hregular, size_samples hsamples⟩
  exact (samples_finite_or_overflows hsamples).imp_right fun h => ⟨grid, hgrid, h⟩

theorem Expression.finiteUnless_of_evaluate {e : Expression}
    (h : e.evaluate settings inputs period output = .ok series) :
    series.FiniteUnless (e.OverflowsOver inputs period output.resolution) period.OutsideLeaps := by
  obtain ⟨grid, w, s, hgrid, hw, hs, hseries⟩ := evaluate_eq_ok h
  obtain ⟨rfl, _⟩ := Grid.build_eq_ok_iff.1 hgrid
  have hfits := fits_eval hw hs
  have hfinite := (eval_finite_or_overflows hw hs).imp_right fun h =>
    show e.OverflowsOver inputs grid.period output.resolution from ⟨grid, hgrid, h⟩
  rcases hseries with ⟨_, rfl⟩ | ⟨_, x, point, rfl, hpoint, rfl⟩
  · refine finiteUnless_outputSeries (hfinite.imp_left (Signal.isFinite_samples hfits)) ?_
    exact fun hregular => ⟨hregular, Signal.size_samples hfits⟩
  · -- the only interval has the sample that a reduction has in all of them
    obtain ⟨hperiod, hone, hlength⟩ := Grid.length_single hpoint
    refine finiteUnless_outputSeries (hfinite.imp_left fun h => ?_) fun hregular => ⟨?_, ?_⟩
    · intro y hy
      rw [Array.mem_singleton.1 hy]
      exact h 0 (hlength grid rfl)
    · rwa [hperiod]
    · exact hone.symm

theorem TimeSlice.finiteUnless_of_evaluate {s : TimeSlice} {location : LocationId}
    (h : s.evaluate location settings inputs period output = .ok series) :
    ∃ window, s.validity.intersect? period = some window ∧
      series.FiniteUnless (s.OverflowsOver inputs window output.resolution)
        window.OutsideLeaps := by
  obtain ⟨grid, samples, hwindow, hresolution, hsamples, rfl⟩ := exists_samples_of_evaluate h
  refine ⟨grid.period, hwindow, ?_⟩
  rw [← hresolution]
  refine finiteUnless_outputSeries (samples_finite_or_overflows hsamples) ?_
  exact fun hregular => ⟨hregular, size_samples hsamples⟩

theorem FormulaLocation.finiteUnless_of_evaluate {l : FormulaLocation}
    (h : l.evaluate settings inputs period output = .ok series) :
    series.FiniteUnless (l.OverflowsOver inputs period output.resolution)
      (period.OutsideLeaps ∧ ∀ s ∈ l.timeSlices, s.validity.OutsideLeaps) := by
  obtain ⟨grid, windows, samples, hgrid, hwindows, hsamples, rfl⟩ := evaluate_eq_ok_iff.1 h
  obtain ⟨rfl, hresolution⟩ := Grid.build_eq_ok_iff.1 hgrid
  refine finiteUnless_outputSeries (samples_finite_or_overflows hwindows hsamples) ?_
  rintro ⟨hperiod, hslices⟩
  rw [← hresolution] at hsamples
  exact ⟨hperiod, size_windowSamples hperiod hslices hwindows hsamples⟩

end Delivered

/-- A series that a formula, an expression, a slice or a location delivers is finite unless numbers
overflow in it; regular are periods that begin and end outside leap seconds. -/
theorem finite_unless_overflow (settings : Settings) (inputs : Inputs) (period : Period)
    (output : OutputSpec) :
    (∀ (f : Formula) series, f.evaluate settings inputs period output = .ok series →
      series.FiniteUnless (f.OverflowsOver inputs period output.resolution)
        period.OutsideLeaps) ∧
    (∀ (e : Expression) series, e.evaluate settings inputs period output = .ok series →
      series.FiniteUnless (e.OverflowsOver inputs period output.resolution)
        period.OutsideLeaps) ∧
    (∀ (s : TimeSlice) location series,
      s.evaluate location settings inputs period output = .ok series →
        ∃ window, s.validity.intersect? period = some window ∧
          series.FiniteUnless (s.OverflowsOver inputs window output.resolution)
            window.OutsideLeaps) ∧
    ∀ (l : FormulaLocation) series, l.evaluate settings inputs period output = .ok series →
      series.FiniteUnless (l.OverflowsOver inputs period output.resolution)
        (period.OutsideLeaps ∧ ∀ s ∈ l.timeSlices, s.validity.OutsideLeaps) := by
  exact ⟨fun _ _ => Formula.finiteUnless_of_evaluate,
    fun _ _ => Expression.finiteUnless_of_evaluate,
    fun _ _ _ => TimeSlice.finiteUnless_of_evaluate,
    fun _ _ => FormulaLocation.finiteUnless_of_evaluate⟩

/-- A series times a large constant. -/
def Formula.enlarged : Formula :=
  .mul [.variable .x, .constant ⟨"1e200", 1e200, by decide, by decide +kernel, .inl rfl⟩]

/-- One hour with a large quantity. -/
def Inputs.large : Inputs :=
  [("x", .ofValues "x" "KWH" .hour ⟨0, 0⟩ [1e200])]

/-- The product of two large numbers overflows; the series is not finite, nothing can be calculated
with it, and its document is refused. -/
theorem finite_unless_overflow_enlarged :
    ∃ series, Formula.enlarged.evaluate default .large ⟨⟨0, 0⟩, ⟨3600, 0⟩⟩ .hourly = .ok series ∧
      ¬ series.IsFinite ∧ Formula.enlarged.OverflowsOver .large ⟨⟨0, 0⟩, ⟨3600, 0⟩⟩ .hour ∧
        ¬ series.checkEvaluable = .ok () ∧
          ∃ y, TimeSeries.read series.write = .error (.notFinite y) := by
  have hquantities : (Formula.enlarged.evaluate default .large ⟨⟨0, 0⟩, ⟨3600, 0⟩⟩
      .hourly).toOption.map (fun s => s.quantities.all Float.isFinite) = some false := by
    decide +kernel
  obtain ⟨series, hseries, hall⟩ := Option.map_eq_some_iff.1 hquantities
  have hinfinite : ¬ series.IsFinite := by
    intro h
    refine Bool.eq_false_iff.1 hall (List.all_eq_true.2 fun q hq => ?_)
    obtain ⟨i, hi, rfl⟩ := List.mem_map.1 hq
    exact h i (Array.mem_toList_iff.1 hi)
  have hok := toOption_eq_some_iff.1 hseries
  have hperiod : series.period = ⟨⟨0, 0⟩, ⟨3600, 0⟩⟩ := by
    obtain ⟨grid, samples, hgrid, _, rfl⟩ := Formula.evaluate_eq_ok_iff.1 hok
    exact (Grid.build_eq_ok_iff.1 hgrid).1
  have hcalendar : series.period.InCalendar := by
    rw [hperiod]
    exact ⟨by decide +kernel, by decide +kernel⟩
  have hproduced := (finite_unless_overflow default .large ⟨⟨0, 0⟩, ⟨3600, 0⟩⟩ .hourly).1
    Formula.enlarged series hok
  refine ⟨series, hok, hinfinite, hproduced.finite_or.resolve_left hinfinite, ?_, ?_⟩
  · exact mt (hproduced.evaluable_iff (by decide)).1 hinfinite
  · exact hproduced.refused (by decide) hcalendar hinfinite

end EnergyFormula
