import EnergyFormula.Proofs.Evaluation.Finite

/-!
# Produced series tile their period

A series is produced over a period with one interval for each step of the resolution, numbered from
one, and with nothing left over at the end (`TimeSeries.TilesPeriod`).  Where the number of samples
comes from a signal, from a scalar or from slices one after another, it is the number of steps of
the grid (`tilesPeriod_outputSeries`).  So a series that a formula, an expression, a slice or a
location delivers tiles the period that it was asked for, or the part of it in which the slice is
valid (`produced_series_tile`).
-/

namespace EnergyFormula

/-! ### Series that tile a period -/

/-- The intervals of the series are the steps of a resolution from the start of a period to its end,
numbered from one.  Only a quantity that is not finite can be at fault in it. -/
structure TimeSeries.TilesPeriod (s : TimeSeries) (period : Period) (r : Resolution) : Prop where
  period_eq : s.period = period
  resolution_eq : s.resolution = r
  nonempty : 0 < s.intervals.size
  interval : ∀ (k : Nat) i, s.intervals[k]? = some i → i.position = k + 1 ∧
    i.start = period.start.after (r.span k) ∧ i.stop = period.start.after (r.span (k + 1))
  last : ∀ i, s.intervals[s.intervals.size - 1]? = some i → i.stop = period.stop
  structural : ∀ e, s.checkEvaluable = .error e → ∃ position, e.defect = .nonFinite position

/-- With a sample for every interval of a grid, the series over the grid tiles its period. -/
theorem tilesPeriod_outputSeries {settings : Settings} {output : OutputSpec}
    {location : Option LocationId} {grid : Grid} {samples : Array Sample}
    (hg : grid.period.OutsideLeaps) (hsize : samples.size = grid.length) :
    (outputSeries settings output location grid samples).TilesPeriod grid.period
      grid.resolution where
  period_eq := rfl
  resolution_eq := rfl
  nonempty := by
    rw [size_intervals_outputSeries, hsize]
    exact grid.length_pos hg
  interval k i hk := by
    rw [getElem?_intervals_outputSeries, Option.map_eq_some_iff] at hk
    obtain ⟨s, _, rfl⟩ := hk
    rw [atIndex_eq hg]
    exact ⟨rfl, rfl, rfl⟩
  last i hi := by
    rw [getElem?_intervals_outputSeries, Option.map_eq_some_iff] at hi
    obtain ⟨s, _, rfl⟩ := hi
    have hlength : grid.length - 1 + 1 = grid.length := Nat.sub_add_cancel (grid.length_pos hg)
    rw [atIndex_eq hg, size_intervals_outputSeries, hsize, hlength]
    exact grid.startOf_length hg
  structural e he :=
    TimeSeries.nonFinite_of_checkEvaluable (outsideLeaps_outputSeries hg)
      (tiles_outputSeries hg hsize) he

/-! ### Main result -/

theorem DomainFunction.isReduction_iff {function : DomainFunction} :
    function.isReduction = true ↔ function = .intervalMax ∨ function = .intervalMin := by
  cases function <;> simp [isReduction]

section Delivered

variable {settings : Settings} {inputs : Inputs} {period : Period} {output : OutputSpec}
  {series : TimeSeries}

theorem Formula.tilesPeriod_of_evaluate {f : Formula} (hperiod : period.OutsideLeaps)
    (h : f.evaluate settings inputs period output = .ok series) :
    series.TilesPeriod period output.resolution := by
  obtain ⟨grid, samples, hgrid, hsamples, rfl⟩ := evaluate_eq_ok_iff.1 h
  obtain ⟨rfl, hresolution⟩ := Grid.build_eq_ok_iff.1 hgrid
  rw [← hresolution]
  exact tilesPeriod_outputSeries hperiod (size_samples hsamples)

theorem Expression.tilesPeriod_of_evaluate {e : Expression} (hperiod : period.OutsideLeaps)
    (hreduction : e.function.isReduction = false)
    (h : e.evaluate settings inputs period output = .ok series) :
    series.TilesPeriod period output.resolution := by
  obtain ⟨grid, w, s, hgrid, hw, hs, ⟨_, rfl⟩ | ⟨htrue, _⟩⟩ := evaluate_eq_ok h
  · obtain ⟨rfl, hresolution⟩ := Grid.build_eq_ok_iff.1 hgrid
    rw [← hresolution]
    exact tilesPeriod_outputSeries hperiod (Signal.size_samples (fits_eval hw hs))
  · rw [hreduction] at htrue
    cases htrue

/-- A reduction has one interval, and its resolution is the length of the period. -/
theorem Expression.tilesPeriod_of_isReduction {e : Expression} (hperiod : period.OutsideLeaps)
    (hreduction : e.function.isReduction = true)
    (h : e.evaluate settings inputs period output = .ok series) :
    series.intervals.size = 1 ∧ (series.resolution.nanos : Int) = period.nanos ∧
      series.TilesPeriod period series.resolution := by
  obtain ⟨_, _, _, _, _, _, ⟨hfalse, _⟩ | ⟨_, x, point, _, hsingle, rfl⟩⟩ := evaluate_eq_ok h
  · rw [hreduction] at hfalse
    cases hfalse
  · obtain ⟨hpoint, hone, _⟩ := Grid.length_single hsingle
    have hnanos := point.nanos_period
    rw [hone, Nat.one_mul, hpoint] at hnanos
    refine ⟨size_intervals_outputSeries, hnanos.symm, ?_⟩
    rw [← hpoint] at hperiod ⊢
    exact tilesPeriod_outputSeries hperiod hone.symm

theorem TimeSlice.tilesPeriod_of_evaluate {s : TimeSlice} {location : LocationId}
    (hperiod : period.OutsideLeaps) (hs : s.validity.OutsideLeaps)
    (h : s.evaluate location settings inputs period output = .ok series) :
    ∃ window, s.validity.intersect? period = some window ∧
      series.TilesPeriod window output.resolution := by
  obtain ⟨grid, samples, hwindow, hresolution, hsamples, rfl⟩ := exists_samples_of_evaluate h
  refine ⟨grid.period, hwindow, ?_⟩
  rw [← hresolution]
  exact tilesPeriod_outputSeries (hs.intersect? hperiod hwindow) (size_samples hsamples)

theorem FormulaLocation.tilesPeriod_of_evaluate {l : FormulaLocation}
    (hperiod : period.OutsideLeaps) (hslices : ∀ s ∈ l.timeSlices, s.validity.OutsideLeaps)
    (h : l.evaluate settings inputs period output = .ok series) :
    series.TilesPeriod period output.resolution := by
  obtain ⟨grid, samples, rfl, hresolution, hsize, rfl, _⟩ :=
    exists_takesSample_of_evaluate hperiod hslices h
  rw [← hresolution]
  exact tilesPeriod_outputSeries hperiod hsize

end Delivered

/-- A series that a formula, an expression, a slice or a location delivers tiles the period.  Its
resolution is the one that was asked for, and a maximum or minimum over all intervals has a single
one that is as long as the period.  A slice is evaluated over the part of the period in which it is
valid.  No instant lies in a leap second. -/
theorem produced_series_tile (settings : Settings) (inputs : Inputs) (period : Period)
    (output : OutputSpec) (hperiod : period.OutsideLeaps) :
    (∀ (f : Formula) series, f.evaluate settings inputs period output = .ok series →
      series.TilesPeriod period output.resolution) ∧
    (∀ (e : Expression) series, e.evaluate settings inputs period output = .ok series →
      (e.function ≠ .intervalMax ∧ e.function ≠ .intervalMin →
        series.TilesPeriod period output.resolution) ∧
      (e.function = .intervalMax ∨ e.function = .intervalMin →
        series.intervals.size = 1 ∧ (series.resolution.nanos : Int) = period.nanos ∧
          series.TilesPeriod period series.resolution)) ∧
    (∀ (s : TimeSlice) location series, s.validity.OutsideLeaps →
      s.evaluate location settings inputs period output = .ok series →
        ∃ window, s.validity.intersect? period = some window ∧
          series.TilesPeriod window output.resolution) ∧
    ∀ (l : FormulaLocation) series, (∀ s ∈ l.timeSlices, s.validity.OutsideLeaps) →
      l.evaluate settings inputs period output = .ok series →
        series.TilesPeriod period output.resolution := by
  refine ⟨fun _ _ => Formula.tilesPeriod_of_evaluate hperiod, fun e series h => ⟨?_, ?_⟩,
    fun _ _ _ => TimeSlice.tilesPeriod_of_evaluate hperiod,
    fun _ _ => FormulaLocation.tilesPeriod_of_evaluate hperiod⟩
  · rintro ⟨hmax, hmin⟩
    refine Expression.tilesPeriod_of_evaluate hperiod ?_ h
    rw [Bool.eq_false_iff, Ne, DomainFunction.isReduction_iff]
    exact fun hroot => hroot.elim hmax hmin
  · intro hroot
    exact Expression.tilesPeriod_of_isReduction hperiod (DomainFunction.isReduction_iff.2 hroot) h

/-- The maximum of a series over all intervals. -/
def Expression.maximum : Expression :=
  .apply .intervalMax [.series "x" 1]

/-- Over two hours, the maximum of a series has one interval, a slice of the first hour covers that
hour, and a location of two slices covers both. -/
theorem produced_series_tile_twoHours :
    Period.twoHours.OutsideLeaps ∧
      (∃ series, Expression.maximum.evaluate default .fading .twoHours .hourly = .ok series ∧
        series.intervals.size = 1 ∧ (series.resolution.nanos : Int) = Period.twoHours.nanos ∧
          series.TilesPeriod .twoHours series.resolution) ∧
      (∀ s ∈ FormulaLocation.firstHour.timeSlices, s.validity.OutsideLeaps) ∧
        (∃ s ∈ FormulaLocation.firstHour.timeSlices, ∃ series,
          s.evaluate FormulaLocation.firstHour.location default [] .twoHours .hourly = .ok series ∧
            series.TilesPeriod ⟨⟨0, 0⟩, ⟨3600, 0⟩⟩ .hour) ∧
          ∃ series, FormulaLocation.firstHour.evaluate default [] .twoHours .hourly = .ok series ∧
            series.TilesPeriod .twoHours .hour := by
  have hperiod : Period.twoHours.OutsideLeaps := by decide
  have hslices : ∀ s ∈ FormulaLocation.firstHour.timeSlices, s.validity.OutsideLeaps := by decide
  have hmaximum : (Expression.maximum.evaluate default .fading .twoHours
      .hourly).toOption.isSome = true := by decide +kernel
  have hslice : ∃ s ∈ FormulaLocation.firstHour.timeSlices,
      s.validity.intersect? .twoHours = some ⟨⟨0, 0⟩, ⟨3600, 0⟩⟩ ∧
        (s.evaluate FormulaLocation.firstHour.location default [] .twoHours
          .hourly).toOption.isSome = true :=
    ⟨_, List.mem_cons_self, by decide, by decide +kernel⟩
  have hlocation : (FormulaLocation.firstHour.evaluate default [] .twoHours
      .hourly).toOption.isSome = true := by decide +kernel
  obtain ⟨point, hpoint⟩ := exists_ok_of_isSome hmaximum
  obtain ⟨s, hs, hwindow, hsok⟩ := hslice
  obtain ⟨part, hpart⟩ := exists_ok_of_isSome hsok
  obtain ⟨whole, hwhole⟩ := exists_ok_of_isSome hlocation
  obtain ⟨_, hexpression, _, _⟩ :=
    produced_series_tile default .fading .twoHours .hourly hperiod
  obtain ⟨_, _, hofSlice, hofLocation⟩ :=
    produced_series_tile default [] .twoHours .hourly hperiod
  obtain ⟨_, hsingle⟩ := hexpression _ point hpoint
  obtain ⟨window, hwindow', htiles⟩ := hofSlice s _ part (hslices s hs) hpart
  obtain rfl : _ = window := Option.some.inj (hwindow.symm.trans hwindow')
  exact ⟨hperiod, ⟨point, hpoint, hsingle (.inl rfl)⟩, hslices, ⟨s, hs, part, hpart, htiles⟩,
    whole, hwhole, hofLocation _ whole hslices hwhole⟩

end EnergyFormula
