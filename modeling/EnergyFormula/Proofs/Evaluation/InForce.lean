import EnergyFormula.Proofs.Evaluation.Coverage
import EnergyFormula.Proofs.Formula.Part
import EnergyFormula.Proofs.Location.Order

/-!
# Locations follow the slice in force

* `FormulaLocation.evaluate_eq_ok_iff`: a location is evaluated by a pass over the slices and by
  their samples.
* `FormulaLocation.row_slicesOverlapping`: the slices that overlap a period are in force there one
  after another.
* `FormulaLocation.evaluate_in_force`: a location is evaluated exactly if its slices can be and
  cover the period on the grid; then each interval is that of the slice in force at its start.
-/

namespace EnergyFormula

/-! ### Samples and intervals -/

theorem Number.roundHalfAway_zero (places : Nat) : Number.roundHalfAway 0 places = 0 := by
  have hmagnitude : Number.magnitude? 0 = some ⟨0, -1074⟩ := rfl
  have hscaled : (Number.shortest .up ⟨0, -1074⟩).scaled? = some ⟨0, 0⟩ := rfl
  rw [Number.roundHalfAway, hmagnitude]
  dsimp only
  rw [hscaled]
  dsimp only
  rw [Number.Scaled.toPlaces_of_le (Nat.zero_le places)]
  exact if_pos rfl

/-- Without data the samples of a slice are missing. -/
theorem TimeSlice.samples_of_noData {s : TimeSlice} (h : s.quality = .noData)
    (settings : Settings) (inputs : Inputs) (grid : Grid) :
    s.samples settings inputs grid = .ok (Array.replicate grid.length .missing) := by
  unfold TimeSlice.samples
  rw [h]

/-- With data the samples of a slice are those of its formula. -/
theorem TimeSlice.samples_eq_ok_iff {s : TimeSlice} (h : s.quality = .valid)
    {settings : Settings} {inputs : Inputs} {grid : Grid} {samples : Array Sample} :
    s.samples settings inputs grid = .ok samples ↔
      s.formula.samples settings.maxFormulaDepth inputs grid = .ok samples := by
  unfold TimeSlice.samples
  rw [h]
  dsimp only
  cases s.formula.samples settings.maxFormulaDepth inputs grid with
  | ok own => rfl
  | error e => exact iff_of_false (by nofun) (by nofun)

theorem Formula.evaluate_eq_ok_iff {f : Formula} {settings : Settings} {inputs : Inputs}
    {period : Period} {output : OutputSpec} {series : TimeSeries} :
    f.evaluate settings inputs period output = .ok series ↔
      ∃ grid samples, Grid.build period output.resolution = .ok grid ∧
        f.samples settings.maxFormulaDepth inputs grid = .ok samples ∧
          series = outputSeries settings output none grid samples := by
  rw [Formula.evaluate, bind_eq_ok]
  constructor
  · rintro ⟨grid, hgrid, h⟩
    obtain ⟨samples, hsamples, h⟩ := bind_eq_ok.1 h
    cases h
    exact ⟨grid, samples, hgrid, hsamples, rfl⟩
  · rintro ⟨grid, samples, hgrid, hsamples, rfl⟩
    exact ⟨grid, hgrid, bind_eq_ok.2 ⟨samples, hsamples, rfl⟩⟩

/-- A slice is evaluated on the grid over the part of the period in which it is valid. -/
theorem TimeSlice.exists_samples_of_evaluate {s : TimeSlice} {location : LocationId}
    {settings : Settings} {inputs : Inputs} {period : Period} {output : OutputSpec}
    {series : TimeSeries} (h : s.evaluate location settings inputs period output = .ok series) :
    ∃ grid samples, s.validity.intersect? period = some grid.period ∧
      grid.resolution = output.resolution ∧ s.samples settings inputs grid = .ok samples ∧
        series = outputSeries settings output (some location) grid samples := by
  obtain ⟨window, hwindow, h⟩ := bind_eq_ok.1 h
  obtain ⟨grid, hgrid, h⟩ := bind_eq_ok.1 h
  obtain ⟨samples, hsamples, h⟩ := bind_eq_ok.1 h
  cases h
  obtain ⟨rfl, hresolution⟩ := Grid.build_eq_ok_iff.1 hgrid
  exact ⟨grid, samples, TimeSlice.window_eq_ok_iff.1 hwindow, hresolution, hsamples, rfl⟩

section Output

variable {settings : Settings} {output : OutputSpec} {location : Option LocationId} {grid : Grid}
  {samples : Array Sample} {k : Nat}

theorem size_intervals_outputSeries :
    (outputSeries settings output location grid samples).intervals.size = samples.size := by
  rw [outputSeries, Grid.intervals, Array.size_mapIdx, Array.size_map]

/-- The interval at an index has the sample at that index, rounded. -/
theorem getElem?_intervals_outputSeries :
    (outputSeries settings output location grid samples).intervals[k]? =
      samples[k]?.map fun s =>
        Interval.atIndex grid.period.start grid.resolution k
          (Number.roundHalfAway s.value settings.quantityScale) s.quality := by
  rw [outputSeries, Grid.intervals, Array.getElem?_mapIdx, Array.getElem?_map, Option.map_map]
  rfl

/-- In a produced series the interval that starts at a boundary of the grid is found. -/
theorem indexAt?_outputSeries (hg : grid.period.OutsideLeaps) (hsize : samples.size = grid.length)
    (hk : k < samples.size) :
    (outputSeries settings output location grid samples).indexAt? (grid.startOf k) = some k := by
  have hsteps : grid.resolution.stepsBetween? grid.period.start (grid.startOf k) = some k :=
    (Resolution.stepsBetween?_eq_some_iff hg.1 (Grid.not_isLeap_startOf hg k)).2 rfl
  have hcontains : grid.period.contains (grid.startOf k) = true := by
    rw [Grid.contains_startOf_iff hg, ← hsize]
    exact hk
  refine TimeSeries.indexAt?_eq_some_iff.2 ⟨hcontains, hsteps, ?_⟩
  rw [size_intervals_outputSeries]
  exact hk

end Output

/-! ### Slices of a location -/

namespace FormulaLocation

variable {l : FormulaLocation} {settings : Settings} {inputs : Inputs} {period : Period}
  {output : OutputSpec} {series : TimeSeries}

theorem evaluate_eq_ok_iff :
    l.evaluate settings inputs period output = .ok series ↔
      ∃ grid windows samples, Grid.build period output.resolution = .ok grid ∧
        coverWindows l.location grid period.start (l.slicesOverlapping period) = .ok windows ∧
          windowSamples settings inputs output.resolution windows = .ok samples ∧
            series = outputSeries settings output (some l.location) grid samples := by
  rw [FormulaLocation.evaluate, bind_eq_ok]
  constructor
  · rintro ⟨grid, hgrid, h⟩
    obtain ⟨windows, hwindows, h⟩ := bind_eq_ok.1 h
    obtain ⟨samples, hsamples, h⟩ := bind_eq_ok.1 h
    cases h
    exact ⟨grid, windows, samples, hgrid, hwindows, hsamples, rfl⟩
  · rintro ⟨grid, windows, samples, hgrid, hwindows, hsamples, rfl⟩
    exact ⟨grid, hgrid, bind_eq_ok.2 ⟨windows, hwindows, bind_eq_ok.2 ⟨samples, hsamples, rfl⟩⟩⟩

theorem mem_slicesOverlapping_iff {s : TimeSlice} :
    s ∈ l.slicesOverlapping period ↔
      s ∈ l.timeSlices ∧ s.validFrom < period.stop ∧ period.start < s.validTo := by
  rw [slicesOverlapping, List.mem_filter, Period.overlaps, Bool.and_eq_true, decide_eq_true_eq,
    decide_eq_true_eq]
  rfl

/-- The slices that overlap a period are in force there one after another. -/
theorem row_slicesOverlapping (hslices : ∀ s ∈ l.timeSlices, s.validity.OutsideLeaps) :
    period.Row (l.slicesOverlapping period) where
  outsideLeaps s hs := hslices s (List.mem_filter.1 hs).1
  nonempty _ hs := l.validFrom_lt_validTo (List.mem_filter.1 hs).1
  overlaps _ hs := (List.mem_filter.1 hs).2
  follow := l.pairwise_timeSlices.sublist List.filter_sublist

/-- The pass over the slices succeeds exactly if their windows tile the grid. -/
theorem coverWindows_slicesOverlapping_eq_ok_iff {grid : Grid} {windows : List SliceWindow}
    (hg : grid.period.OutsideLeaps) (hslices : ∀ s ∈ l.timeSlices, s.validity.OutsideLeaps) :
    coverWindows l.location grid grid.period.start (l.slicesOverlapping grid.period) = .ok windows ↔
      List.Forall₂ (SliceWindow.IsPart grid.period) (l.slicesOverlapping grid.period) windows ∧
        grid.TiledBy 0 windows := by
  have hrow : grid.period.Row (l.slicesOverlapping grid.period) := row_slicesOverlapping hslices
  rw [← Grid.startOf_zero, coverWindows_eq_ok_iff hg hrow.outsideLeaps]

/-- Slices cover a period, and change within it only at boundaries, if those that overlap it do. -/
theorem exists_coverWindows_slicesOverlapping_iff {grid : Grid}
    (hg : grid.period.OutsideLeaps)
    (hslices : ∀ s ∈ l.timeSlices, s.validity.OutsideLeaps) :
    (∃ windows, coverWindows l.location grid grid.period.start
        (l.slicesOverlapping grid.period) = .ok windows) ↔
      (∀ t, grid.period.contains t = true → ∃ s ∈ l.timeSlices, s.covers t = true) ∧
        ∀ s ∈ l.timeSlices, s.ChangesOn grid := by
  rw [exists_coverWindows_iff hg (row_slicesOverlapping hslices)]
  refine and_congr (forall₂_congr fun t ht => ?_) ?_
  · constructor
    · rintro ⟨s, hs, hcovers⟩
      exact ⟨s, (mem_slicesOverlapping_iff.1 hs).1, hcovers⟩
    · rintro ⟨s, hs, hcovers⟩
      refine ⟨s, mem_slicesOverlapping_iff.2 ⟨hs, ?_⟩, hcovers⟩
      simp only [TimeSlice.covers, TimeSlice.validity, Period.contains, Bool.and_eq_true,
        decide_eq_true_eq, Instant.lt_def, Instant.le_def] at ht hcovers ⊢
      omega
  · constructor
    · intro h s hs t ht hstart hstop
      -- with a bound inside the period the slice overlaps it
      refine h s (mem_slicesOverlapping_iff.2 ⟨hs, ?_⟩) t ht hstart hstop
      have hvalid := l.validFrom_lt_validTo hs
      rw [Instant.lt_def] at hvalid hstart hstop
      rw [Instant.lt_def, Instant.lt_def]
      rcases List.mem_pair.1 ht with rfl | rfl
      · exact ⟨hstop, Int.lt_trans hstart hvalid⟩
      · exact ⟨Int.lt_trans hvalid hstop, hstart⟩
    · intro h s hs
      exact h s (mem_slicesOverlapping_iff.1 hs).1

/-- Where the windows of slices tile a grid, they have samples exactly if the formulas of the slices
with data can be evaluated over their windows. -/
theorem exists_windowSamples_tiledBy_iff {grid : Grid} (hg : grid.period.OutsideLeaps) {i : Nat}
    {slices : List TimeSlice} {windows : List SliceWindow}
    (hparts : List.Forall₂ (SliceWindow.IsPart grid.period) slices windows)
    (htiled : grid.TiledBy i windows) (hresolution : grid.resolution = output.resolution) :
    (∃ samples, windowSamples settings inputs output.resolution windows = .ok samples) ↔
      ∀ s ∈ slices, s.quality = .valid → ∃ window series,
        s.validity.intersect? grid.period = some window ∧
          s.formula.evaluate settings inputs window output = .ok series := by
  rw [exists_windowSamples_iff]
  constructor
  · intro h s hs hvalid
    obtain ⟨w, hw, hslice, hwindow⟩ := exists_right_of_forall₂ hparts s hs
    obtain ⟨part, own, hpart, hown⟩ := h w hw
    rw [hslice, TimeSlice.samples_eq_ok_iff hvalid] at hown
    exact ⟨w.window, _, hwindow, Formula.evaluate_eq_ok_iff.2 ⟨part, own, hpart, hown, rfl⟩⟩
  · intro h w hw
    obtain ⟨s, hs, hslice, hwindow⟩ := exists_left_of_forall₂ hparts w hw
    rw [hslice]
    cases hquality : s.quality with
    | valid =>
      obtain ⟨window, series, hwindow', heval⟩ := h s hs hquality
      rw [hwindow, Option.some.injEq] at hwindow'
      obtain ⟨part, own, hpart, hown, _⟩ := Formula.evaluate_eq_ok_iff.1 heval
      rw [← hwindow'] at hpart
      exact ⟨part, own, hpart, (TimeSlice.samples_eq_ok_iff hquality).2 hown⟩
    | noData =>
      -- the window has a grid, and nothing else is needed
      obtain ⟨a, b, hbounds, hlt⟩ := htiled.exists_window_eq w hw
      obtain ⟨part, hpart, _⟩ := Grid.exists_build_between hg hlt
      rw [← hbounds, hresolution] at hpart
      exact ⟨part, _, hpart, TimeSlice.samples_of_noData hquality settings inputs part⟩

/-! ### Samples of a location -/

/-- In an interval of the grid, the slice in force at its start has the sample on the grid of its own
window. -/
structure TakesSample (l : FormulaLocation) (settings : Settings) (inputs : Inputs) (grid : Grid)
    (k : Nat) (sample : Sample) (s : TimeSlice) (part : Grid) (own : Array Sample) (m : Nat) :
    Prop where
  mem : s ∈ l.timeSlices
  window : s.validity.intersect? grid.period = some part.period
  resolution : part.resolution = grid.resolution
  samples : s.samples settings inputs part = .ok own
  sample : own[m]? = some sample
  start : part.startOf m = grid.startOf k
  covers : s.covers (grid.startOf k) = true

section TakesSample

variable {grid part : Grid} {s : TimeSlice} {sample : Sample} {samples own : Array Sample} {k m : Nat}

theorem TakesSample.lt_length (h : l.TakesSample settings inputs grid k sample s part own m) :
    m < part.length :=
  TimeSlice.lt_length_of_getElem? h.samples h.sample

theorem TakesSample.sliceAt?_eq (h : l.TakesSample settings inputs grid k sample s part own m) :
    l.sliceAt? (grid.startOf k) = some s :=
  l.sliceAt?_eq_some_iff.2 ⟨h.mem, h.covers⟩

/-- Slices one after another have a sample for every interval of the grid. -/
theorem size_windowSamples {windows : List SliceWindow} (hg : grid.period.OutsideLeaps)
    (hslices : ∀ s ∈ l.timeSlices, s.validity.OutsideLeaps)
    (hwindows : coverWindows l.location grid grid.period.start
      (l.slicesOverlapping grid.period) = .ok windows)
    (hsamples : windowSamples settings inputs grid.resolution windows = .ok samples) :
    samples.size = grid.length := by
  obtain ⟨_, htiled⟩ := (coverWindows_slicesOverlapping_eq_ok_iff hg hslices).1 hwindows
  exact (getElem?_windowSamples hg htiled hsamples).1

/-- A location has a sample in every interval of the grid, and takes it from the slice that is in
force there. -/
theorem exists_takesSample_of_evaluate (hperiod : period.OutsideLeaps)
    (hslices : ∀ s ∈ l.timeSlices, s.validity.OutsideLeaps)
    (h : l.evaluate settings inputs period output = .ok series) :
    ∃ grid samples, grid.period = period ∧ grid.resolution = output.resolution ∧
      samples.size = grid.length ∧
        series = outputSeries settings output (some l.location) grid samples ∧
          ∀ k sample, samples[k]? = some sample →
            ∃ s part own m, l.TakesSample settings inputs grid k sample s part own m := by
  obtain ⟨grid, windows, samples, hgrid, hwindows, hsamples, rfl⟩ := evaluate_eq_ok_iff.1 h
  obtain ⟨rfl, hresolution⟩ := Grid.build_eq_ok_iff.1 hgrid
  obtain ⟨hparts, htiled⟩ := (coverWindows_slicesOverlapping_eq_ok_iff hperiod hslices).1 hwindows
  rw [← hresolution] at hsamples
  obtain ⟨hsize, hget⟩ := getElem?_windowSamples hperiod htiled hsamples
  refine ⟨grid, samples, rfl, hresolution, hsize, rfl, fun k sample hsample => ?_⟩
  obtain ⟨w, hw, part, own, m, hpart, hown, hm, hstart⟩ := hget k sample hsample
  obtain ⟨s, hs, rfl, hwindow⟩ := exists_left_of_forall₂ hparts w hw
  obtain ⟨hpartPeriod, hpartResolution⟩ := Grid.build_eq_ok_iff.1 hpart
  have hmem := (mem_slicesOverlapping_iff.1 hs).1
  rw [← hpartPeriod] at hwindow
  rw [Nat.zero_add] at hstart
  refine ⟨w.slice, part, own, m, hmem, hwindow, hpartResolution, hown, hm, hstart, ?_⟩
  -- the start lies in the window of the slice
  have hcontains :=
    (Grid.contains_startOf_iff ((hslices w.slice hmem).intersect? hperiod hwindow)).2
      (TimeSlice.lt_length_of_getElem? hown hm)
  rw [hstart] at hcontains
  exact ((Period.mem_intersect? hwindow _).1 hcontains).1

end TakesSample

/-! ### Main result -/

/-- What it takes to evaluate a location over a period. -/
structure EvaluableOver (l : FormulaLocation) (settings : Settings) (inputs : Inputs)
    (period : Period) (output : OutputSpec) : Prop where
  /-- The period is a whole number of steps, and not empty. -/
  whole : ∃ n, 0 < n ∧ period.stop = period.start.after (output.resolution.span n)
  /-- At every instant of the period some slice is in force. -/
  covered : ∀ t, period.contains t = true → ∃ s ∈ l.timeSlices, s.covers t = true
  /-- Within the period slices begin and end only where an interval begins. -/
  aligned : ∀ s ∈ l.timeSlices, ∀ t ∈ [s.validFrom, s.validTo],
    period.start < t → t < period.stop → ∃ k, t = period.start.after (output.resolution.span k)
  /-- The formula of every slice with data is evaluated over the part of the period in which the
  slice is in force. -/
  evaluated : ∀ s ∈ l.slicesOverlapping period, s.quality = .valid → ∃ window series,
    s.validity.intersect? period = some window ∧
      s.formula.evaluate settings inputs window output = .ok series

/-- The interval at an index says what the slice in force at its start says there. -/
structure FollowsSlice (l : FormulaLocation) (settings : Settings) (inputs : Inputs)
    (period : Period) (output : OutputSpec) (k : Nat) (interval : Interval) : Prop where
  position : interval.position = k + 1
  start : interval.start = period.start.after (output.resolution.span k)
  stop : interval.stop = period.start.after (output.resolution.span (k + 1))
  slice : ∃ s, l.sliceAt? interval.start = some s ∧
    match s.quality with
    | .noData => interval.quantity = 0 ∧ interval.quality = .missing
    | .valid => ∃ window alone m own, s.validity.intersect? period = some window ∧
        s.formula.evaluate settings inputs window output = .ok alone ∧
          alone.indexAt? interval.start = some m ∧ alone.intervals[m]? = some own ∧
            own.stop = interval.stop ∧ interval.quantity = own.quantity ∧
              interval.quality = own.quality

theorem evaluableOver_iff (hperiod : period.OutsideLeaps)
    (hslices : ∀ s ∈ l.timeSlices, s.validity.OutsideLeaps) :
    (∃ series, l.evaluate settings inputs period output = .ok series) ↔
      l.EvaluableOver settings inputs period output := by
  constructor
  · rintro ⟨series, h⟩
    obtain ⟨grid, windows, samples, hgrid, hwindows, hsamples, _⟩ := evaluate_eq_ok_iff.1 h
    obtain ⟨rfl, hresolution⟩ := Grid.build_eq_ok_iff.1 hgrid
    obtain ⟨hcovered, haligned⟩ :=
      (exists_coverWindows_slicesOverlapping_iff hperiod hslices).1 ⟨windows, hwindows⟩
    obtain ⟨hparts, htiled⟩ :=
      (coverWindows_slicesOverlapping_eq_ok_iff hperiod hslices).1 hwindows
    refine ⟨(Grid.exists_build_iff hperiod).1 ⟨grid, hgrid⟩, hcovered, ?_, ?_⟩
    · rw [← hresolution]
      exact haligned
    · exact (exists_windowSamples_tiledBy_iff hperiod hparts htiled hresolution).1
        ⟨samples, hsamples⟩
  · -- grid, windows and samples are found one after another
    rintro ⟨hwhole, hcovered, haligned, hevaluated⟩
    obtain ⟨grid, hgrid⟩ := (Grid.exists_build_iff hperiod).2 hwhole
    obtain ⟨rfl, hresolution⟩ := Grid.build_eq_ok_iff.1 hgrid
    rw [← hresolution] at haligned
    obtain ⟨windows, hwindows⟩ :=
      (exists_coverWindows_slicesOverlapping_iff hperiod hslices).2 ⟨hcovered, haligned⟩
    obtain ⟨hparts, htiled⟩ :=
      (coverWindows_slicesOverlapping_eq_ok_iff hperiod hslices).1 hwindows
    obtain ⟨samples, hsamples⟩ :=
      (exists_windowSamples_tiledBy_iff hperiod hparts htiled hresolution).2 hevaluated
    exact ⟨_, evaluate_eq_ok_iff.2 ⟨grid, windows, samples, hgrid, hwindows, hsamples, rfl⟩⟩

/-- The interval of a sample that is taken from a slice is that of its formula alone, or missing. -/
theorem TakesSample.followsSlice {grid part : Grid} {s : TimeSlice} {own : Array Sample}
    {sample : Sample} {m k : Nat} (h : l.TakesSample settings inputs grid k sample s part own m)
    (hg : grid.period.OutsideLeaps) (hleaps : s.validity.OutsideLeaps)
    (hresolution : grid.resolution = output.resolution) :
    l.FollowsSlice settings inputs grid.period output k
      (Interval.atIndex grid.period.start grid.resolution k
        (Number.roundHalfAway sample.value settings.quantityScale) sample.quality) := by
  have hbegin : grid.startOf k = grid.period.start.after (output.resolution.span k) := by
    rw [← hresolution]
    rfl
  have hend : (grid.startOf k).after grid.resolution.seconds
      = grid.period.start.after (output.resolution.span (k + 1)) := by
    rw [Grid.startOf_succ hg, ← hresolution]
    rfl
  refine ⟨rfl, hbegin, hend, s, h.sliceAt?_eq, ?_⟩
  cases hquality : s.quality with
  | noData =>
    have hown := h.samples
    have hm := h.sample
    rw [TimeSlice.samples_of_noData hquality, Except.ok.injEq] at hown
    rw [← hown, Array.getElem?_replicate] at hm
    obtain ⟨_, hm⟩ := Option.ite_none_right_eq_some.1 hm
    cases hm
    exact ⟨Number.roundHalfAway_zero settings.quantityScale, rfl⟩
  | valid =>
    -- alone, the formula is evaluated on the grid of the window
    have hsize : own.size = part.length := TimeSlice.size_samples h.samples
    have hsamples := (TimeSlice.samples_eq_ok_iff hquality).1 h.samples
    have hbuild : Grid.build part.period output.resolution = .ok part :=
      Grid.build_eq_ok_iff.2 ⟨rfl, h.resolution.trans hresolution⟩
    have hinterval : (outputSeries settings output none part own).intervals[m]? =
        some (Interval.atIndex part.period.start part.resolution m
          (Number.roundHalfAway sample.value settings.quantityScale) sample.quality) := by
      rw [getElem?_intervals_outputSeries, h.sample, Option.map_some]
    refine ⟨part.period, outputSeries settings output none part own, m, _, h.window,
      Formula.evaluate_eq_ok_iff.2 ⟨part, own, hbuild, hsamples, rfl⟩, ?_, hinterval, ?_, rfl,
      rfl⟩
    · show TimeSeries.indexAt? _ (grid.startOf k) = some m
      rw [← h.start]
      exact indexAt?_outputSeries (hleaps.intersect? hg h.window) hsize (hsize ▸ h.lt_length)
    · show (part.startOf m).after part.resolution.seconds
        = (grid.startOf k).after grid.resolution.seconds
      rw [h.start, h.resolution]

/-- A location is evaluated exactly if the period is a whole number of steps, the slices cover it
and change within it only where an interval begins, and the formulas of the slices with data can be
evaluated.  Each interval of the series is then that of the slice in force at its start. -/
theorem evaluate_in_force (l : FormulaLocation) (settings : Settings) (inputs : Inputs)
    (period : Period) (output : OutputSpec) (hperiod : period.OutsideLeaps)
    (hslices : ∀ s ∈ l.timeSlices, s.validity.OutsideLeaps) :
    ((∃ series, l.evaluate settings inputs period output = .ok series) ↔
        l.EvaluableOver settings inputs period output) ∧
      ∀ series, l.evaluate settings inputs period output = .ok series →
        period.stop = period.start.after (output.resolution.span series.intervals.size) ∧
          ∀ k interval, series.intervals[k]? = some interval →
            l.FollowsSlice settings inputs period output k interval := by
  refine ⟨evaluableOver_iff hperiod hslices, fun series h => ?_⟩
  obtain ⟨grid, samples, rfl, hresolution, hsize, rfl, htakes⟩ :=
    exists_takesSample_of_evaluate hperiod hslices h
  constructor
  · rw [size_intervals_outputSeries, hsize, ← hresolution]
    exact (Grid.startOf_length hperiod).symm
  · intro k interval hk
    rw [getElem?_intervals_outputSeries, Option.map_eq_some_iff] at hk
    obtain ⟨sample, hsample, rfl⟩ := hk
    obtain ⟨s, part, own, m, htakes⟩ := htakes k sample hsample
    exact htakes.followsSlice hperiod (hslices s htakes.mem) hresolution

end FormulaLocation

/-- The constant one. -/
def Formula.constantOne : Formula :=
  .operand (.constant .one)

/-- An hour with the constant one, and an hour without data. -/
def TimeSlice.firstHour : List TimeSlice :=
  [⟨1, .valid, ⟨0, 0⟩, ⟨3600, 0⟩, .constantOne⟩, ⟨2, .noData, ⟨3600, 0⟩, ⟨7200, 0⟩, .constantOne⟩]

theorem sliceDefects_firstHour : sliceDefects TimeSlice.firstHour = [] := by
  refine sliceDefects_eq_nil_iff.2 ⟨List.cons_ne_nil _ _, by decide, ?_⟩
  exact List.pairwise_pair.2 (.inl (by decide))

theorem inForceOrder_firstHour : inForceOrder TimeSlice.firstHour = TimeSlice.firstHour :=
  List.mergeSort_of_pairwise (List.pairwise_pair.2 (by decide))

/-- A location with data in the first of two hours. -/
def FormulaLocation.firstHour : FormulaLocation where
  location := .market ⟨"51238696780", by decide⟩
  timeSlices := TimeSlice.firstHour
  sound := ⟨TimeSlice.firstHour, sliceDefects_firstHour, inForceOrder_firstHour.symm⟩

/-- The two hours of `FormulaLocation.firstHour`. -/
def Period.twoHours : Period :=
  ⟨⟨0, 0⟩, ⟨7200, 0⟩⟩

/-- A quantity for every hour. -/
def OutputSpec.hourly : OutputSpec :=
  ⟨none, "KWH", .hour⟩

theorem Formula.samples_constantOne (grid : Grid) :
    constantOne.samples (default : Settings).maxFormulaDepth [] grid =
      .ok (Array.replicate grid.length (.validated 1)) := by
  have hnames : constantOne.names = [] := by decide +kernel
  rw [Formula.samples, if_neg (by decide), Formula.signal, hnames]
  rfl

theorem FormulaLocation.evaluableOver_firstHour :
    firstHour.EvaluableOver default [] .twoHours .hourly := by
  refine ⟨⟨2, by decide, by decide⟩, fun t ht => ?_, ?_, ?_⟩
  · rw [Period.contains, Bool.and_eq_true, decide_eq_true_eq, decide_eq_true_eq] at ht
    by_cases h : t < ⟨3600, 0⟩
    · refine ⟨_, List.mem_cons_self, ?_⟩
      exact Bool.and_eq_true_iff.2 ⟨decide_eq_true ht.1, decide_eq_true h⟩
    · refine ⟨_, List.mem_cons_of_mem _ List.mem_cons_self, ?_⟩
      exact Bool.and_eq_true_iff.2 ⟨decide_eq_true (Instant.not_lt.1 h), decide_eq_true ht.2⟩
  · -- the only bound inside the two hours is the end of the first one
    have hbounds : ∀ s ∈ firstHour.timeSlices, ∀ t ∈ [s.validFrom, s.validTo],
        Period.twoHours.start < t → t < Period.twoHours.stop → t = ⟨3600, 0⟩ := by decide
    intro s hs t ht hstart hstop
    exact ⟨1, hbounds s hs t ht hstart hstop⟩
  · intro s hs hvalid
    obtain rfl | hs := List.mem_cons.1 (mem_slicesOverlapping_iff.1 hs).1
    · have hwindow : Period.OutsideLeaps ⟨⟨0, 0⟩, ⟨3600, 0⟩⟩ := by decide
      obtain ⟨grid, hgrid⟩ : ∃ grid,
          Grid.build ⟨⟨0, 0⟩, ⟨3600, 0⟩⟩ OutputSpec.hourly.resolution = .ok grid :=
        (Grid.exists_build_iff hwindow).2 ⟨1, by decide, by decide⟩
      exact ⟨_, _, rfl,
        Formula.evaluate_eq_ok_iff.2 ⟨grid, _, hgrid, Formula.samples_constantOne grid, rfl⟩⟩
    · rw [List.mem_singleton.1 hs] at hvalid
      cases hvalid

theorem FormulaLocation.evaluate_in_force_firstHour :
    Period.twoHours.OutsideLeaps ∧ (∀ s ∈ firstHour.timeSlices, s.validity.OutsideLeaps) ∧
      ∃ series, firstHour.evaluate default [] .twoHours .hourly = .ok series ∧
        series.intervals.size = 2 ∧ ∀ k interval, series.intervals[k]? = some interval →
          firstHour.FollowsSlice default [] .twoHours .hourly k interval := by
  have hperiod : Period.twoHours.OutsideLeaps := by decide
  have hslices : ∀ s ∈ firstHour.timeSlices, s.validity.OutsideLeaps := by decide
  obtain ⟨hiff, hfollow⟩ := firstHour.evaluate_in_force default [] .twoHours .hourly hperiod hslices
  obtain ⟨series, hseries⟩ := hiff.2 evaluableOver_firstHour
  obtain ⟨hsize, hintervals⟩ := hfollow series hseries
  refine ⟨hperiod, hslices, series, hseries, ?_, hintervals⟩
  -- two hours are two steps of an hour
  have hseconds : (7200 : Int) = 0 + (3600 * series.intervals.size : Nat) :=
    (congrArg Instant.second hsize).trans (Instant.second_after _ _)
  omega

end EnergyFormula
