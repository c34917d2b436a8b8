import EnergyFormula.Proofs.Evaluation.InForce
import EnergyFormula.Proofs.Evaluation.Instants

/-!
# Evaluation is additive over the period

A period is split at a boundary strictly inside it.

* `Formula.exists_evaluate_split_iff`: a formula is evaluated over the period exactly if it is over
  both parts.
* `FormulaLocation.evaluableOver_split_iff`: the same for a location, where the slice in force at
  the boundary is split as well.
* `FormulaLocation.evaluate_split`: the intervals of the location over the period are those over the
  first part and, in positions behind them, those over the second part.
-/

namespace EnergyFormula

/-! ### Formulas -/

section Formulas

variable {f : Formula} {settings : Settings} {inputs : Inputs} {period : Period}
  {output : OutputSpec} {series : TimeSeries} {r : Resolution} {t : Instant}

/-- A formula is evaluated over a period exactly if the period is a whole number of steps, its
inputs can be brought there, and it can be read at the start of every interval. -/
theorem Formula.exists_evaluate_iff (hperiod : period.OutsideLeaps) :
    (∃ series, f.evaluate settings inputs period output = .ok series) ↔
      (∃ n, 0 < n ∧ period.stop = period.start.after (output.resolution.span n)) ∧
        f.depth ≤ settings.maxFormulaDepth ∧
          Inputs.AlignWith inputs f.names output.resolution period ∧
            ∀ t, period.HasStart output.resolution t → ∃ x,
              f.reading (Inputs.sampleAt? inputs output.resolution t) = some x := by
  rw [← Grid.exists_build_iff hperiod]
  -- over the grid of the period the starts are counted
  have hgrid : ∀ grid, Grid.build period output.resolution = .ok grid →
      ((∃ samples, f.samples settings.maxFormulaDepth inputs grid = .ok samples) ↔
        f.depth ≤ settings.maxFormulaDepth ∧
          Inputs.AlignWith inputs f.names output.resolution period ∧
            ∀ t, period.HasStart output.resolution t → ∃ x,
              f.reading (Inputs.sampleAt? inputs output.resolution t) = some x) := by
    intro grid hgrid
    obtain ⟨rfl, hresolution⟩ := Grid.build_eq_ok_iff.1 hgrid
    rw [← hresolution, Formula.exists_samples_iff (Grid.length_pos hperiod)]
    refine and_congr_right fun _ => and_congr_right fun _ => ?_
    simp only [Grid.hasStart_iff hperiod]
    constructor
    · rintro h t ⟨i, hi, rfl⟩
      exact h i hi
    · intro h i hi
      exact h _ ⟨i, hi, rfl⟩
  constructor
  · rintro ⟨series, h⟩
    obtain ⟨grid, samples, hbuild, hsamples, _⟩ := Formula.evaluate_eq_ok_iff.1 h
    exact ⟨⟨grid, hbuild⟩, (hgrid grid hbuild).1 ⟨samples, hsamples⟩⟩
  · rintro ⟨⟨grid, hbuild⟩, h⟩
    obtain ⟨samples, hsamples⟩ := (hgrid grid hbuild).2 h
    exact ⟨_, Formula.evaluate_eq_ok_iff.2 ⟨grid, samples, hbuild, hsamples, rfl⟩⟩

/-- A series can be brought onto the grid of a period exactly if it can be brought onto those of
both parts. -/
theorem TimeSeries.alignsWith_split_iff (hseries : ¬ series.period.start.IsLeap)
    (hperiod : period.OutsideLeaps) (h : period.SplitsAt r t) :
    series.AlignsWith r period ↔
      series.AlignsWith r (period.upTo t) ∧ series.AlignsWith r (period.onward t) := by
  have hstart := h.start_lt
  have hstop := h.lt_stop
  rw [Instant.lt_def] at hstart hstop
  have hcovers : series.period.covers period = true ↔
      series.period.covers (period.upTo t) = true ∧
        series.period.covers (period.onward t) = true := by
    simp only [Period.covers, Period.upTo, Period.onward, Bool.and_eq_true, decide_eq_true_eq,
      Instant.le_def]
    omega
  constructor
  · intro haligns
    obtain ⟨hbefore, hbehind⟩ := hcovers.1 haligns.covers
    refine ⟨⟨haligns.evaluable, haligns.finer, haligns.divides, haligns.inPhase, hbefore⟩,
      haligns.evaluable, haligns.finer, haligns.divides, ?_, hbehind⟩
    obtain ⟨k, rfl⟩ := h.boundary
    exact (Resolution.isAligned_after hseries hperiod.1 haligns.divides k).trans haligns.inPhase
  · rintro ⟨hbefore, hbehind⟩
    exact ⟨hbefore.evaluable, hbefore.finer, hbefore.divides, hbefore.inPhase,
      hcovers.2 ⟨hbefore.covers, hbehind.covers⟩⟩

theorem Inputs.alignWith_split_iff {names : List String}
    (hinputs : ∀ x ∈ inputs, ¬ x.2.period.start.IsLeap) (hperiod : period.OutsideLeaps)
    (h : period.SplitsAt r t) :
    Inputs.AlignWith inputs names r period ↔
      Inputs.AlignWith inputs names r (period.upTo t) ∧
        Inputs.AlignWith inputs names r (period.onward t) := by
  unfold Inputs.AlignWith
  rw [← forall₂_and]
  refine forall₂_congr fun name _ => ?_
  cases hlookup : inputs.lookup name with
  | none => simp
  | some series =>
    obtain ⟨before, after, rfl, _⟩ := List.lookup_eq_some_iff.1 hlookup
    have hseries := hinputs (name, series) (List.mem_append_right before List.mem_cons_self)
    simp only [Option.some.injEq, exists_eq_left']
    exact TimeSeries.alignsWith_split_iff hseries hperiod h

/-- A formula is evaluated over a period exactly if it is over both parts. -/
theorem Formula.exists_evaluate_split_iff (hinputs : ∀ x ∈ inputs, ¬ x.2.period.start.IsLeap)
    (hperiod : period.OutsideLeaps) (h : period.SplitsAt output.resolution t) :
    (∃ series, f.evaluate settings inputs period output = .ok series) ↔
      (∃ series, f.evaluate settings inputs (period.upTo t) output = .ok series) ∧
        ∃ series, f.evaluate settings inputs (period.onward t) output = .ok series := by
  rw [exists_evaluate_iff hperiod, exists_evaluate_iff (h.upTo_outsideLeaps hperiod),
    exists_evaluate_iff (h.onward_outsideLeaps hperiod), h.whole_iff hperiod,
    Inputs.alignWith_split_iff hinputs hperiod h]
  simp only [h.hasStart_iff hperiod, or_imp, forall_and]
  tauto

end Formulas

/-! ### Locations -/

namespace FormulaLocation

variable {l : FormulaLocation} {settings : Settings} {inputs : Inputs} {period : Period}
  {output : OutputSpec} {series : TimeSeries} {t : Instant}

/-- The formulas of the slices with data are evaluated over what the slices have in common with the
period. -/
def Evaluates (l : FormulaLocation) (settings : Settings) (inputs : Inputs) (output : OutputSpec)
    (period : Period) : Prop :=
  ∀ s ∈ l.timeSlices, s.quality = .valid → ∀ window, s.validity.intersect? period = some window →
    ∃ series, s.formula.evaluate settings inputs window output = .ok series

theorem evaluates_iff (hperiod : period.start < period.stop) :
    (∀ s ∈ l.slicesOverlapping period, s.quality = .valid → ∃ window series,
        s.validity.intersect? period = some window ∧
          s.formula.evaluate settings inputs window output = .ok series) ↔
      l.Evaluates settings inputs output period := by
  constructor
  · intro h s hs hvalid window hwindow
    have hoverlaps : s ∈ l.slicesOverlapping period := by
      obtain ⟨rfl, hlt⟩ := Period.intersect?_eq_some_iff.1 hwindow
      refine mem_slicesOverlapping_iff.2 ⟨hs, ?_⟩
      simp only [TimeSlice.validity, Instant.lt_def, Instant.rank_latest,
        Instant.rank_earliest] at hlt ⊢
      exact ⟨by omega, by omega⟩
    obtain ⟨window', series, hwindow', heval⟩ := h s hoverlaps hvalid
    obtain rfl := Option.some.inj (hwindow.symm.trans hwindow')
    exact ⟨series, heval⟩
  · intro h s hs hvalid
    obtain ⟨hmem, hoverlaps⟩ := List.mem_filter.1 hs
    have hwindow := Period.intersect?_of_overlaps (l.validFrom_lt_validTo hmem) hperiod hoverlaps
    obtain ⟨series, heval⟩ := h s hmem hvalid _ hwindow
    exact ⟨_, series, hwindow, heval⟩

/-- Within the period slices begin and end at boundaries only. -/
def ChangesAt (l : FormulaLocation) (r : Resolution) (period : Period) : Prop :=
  ∀ s ∈ l.timeSlices, ∀ t ∈ [s.validFrom, s.validTo],
    period.start < t → t < period.stop → ∃ k, t = period.start.after (r.span k)

/-- Slices change at boundaries of a period if they do in both parts. -/
theorem changesAt_split_iff {r : Resolution} (hperiod : period.OutsideLeaps)
    (h : period.SplitsAt r t) :
    l.ChangesAt r period ↔ l.ChangesAt r (period.upTo t) ∧ l.ChangesAt r (period.onward t) := by
  constructor
  · intro hchanges
    refine ⟨fun s hs u hu hstart hstop => ?_, fun s hs u hu hstart hstop => ?_⟩
    · exact hchanges s hs u hu hstart (Int.lt_trans hstop h.lt_stop)
    · exact (h.exists_after_iff hperiod (Int.le_of_lt hstart)).1
        (hchanges s hs u hu (Int.lt_trans h.start_lt hstart) hstop)
  · rintro ⟨hbefore, hbehind⟩ s hs u hu hstart hstop
    by_cases hlt : u < t
    · exact hbefore s hs u hu hstart hlt
    · have hle := Instant.not_lt.1 hlt
      by_cases hlt' : t < u
      · exact (h.exists_after_iff hperiod hle).2 (hbehind s hs u hu hlt' hstop)
      · -- the slice changes at the boundary itself
        rw [← Instant.le_antisymm hle (Int.not_lt.1 hlt')]
        exact h.boundary

/-- The boundary is one of the window of the slice in force there as well. -/
theorem splitsAt_window {r : Resolution} {s : TimeSlice} {window : Period}
    (hperiod : period.OutsideLeaps) (h : period.SplitsAt r t) (hchanges : l.ChangesAt r period)
    (hs : s ∈ l.timeSlices) (hwindow : s.validity.intersect? period = some window)
    (hinside : window.start < t ∧ t < window.stop) : window.SplitsAt r t := by
  refine ⟨hinside.1, hinside.2, ?_⟩
  obtain ⟨rfl, _⟩ := Period.intersect?_eq_some_iff.1 hwindow
  by_cases hle : s.validFrom ≤ period.start
  · have hstart : s.validity.start.latest period.start = period.start := Instant.latest_of_le hle
    rw [hstart]
    exact h.boundary
  · -- the slice begins inside the period, at a boundary
    have hlt : period.start < s.validFrom := Int.not_le.1 hle
    have hstart : s.validity.start.latest period.start = s.validFrom :=
      Instant.latest_of_ge (Instant.le_of_lt hlt)
    rw [hstart] at hinside ⊢
    have hstop := Int.lt_trans hinside.1 h.lt_stop
    have hboundary := hchanges s hs s.validFrom List.mem_cons_self hlt hstop
    have hsplits : period.SplitsAt r s.validFrom := ⟨hlt, hstop, hboundary⟩
    exact (hsplits.exists_after_iff hperiod (Int.le_of_lt hinside.1)).1 h.boundary

/-- The formulas of the slices are evaluated over a period exactly if they are over both parts. -/
theorem evaluates_split_iff (hinputs : ∀ x ∈ inputs, ¬ x.2.period.start.IsLeap)
    (hperiod : period.OutsideLeaps) (hslices : ∀ s ∈ l.timeSlices, s.validity.OutsideLeaps)
    (h : period.SplitsAt output.resolution t) (hchanges : l.ChangesAt output.resolution period) :
    l.Evaluates settings inputs output period ↔
      l.Evaluates settings inputs output (period.upTo t) ∧
        l.Evaluates settings inputs output (period.onward t) := by
  unfold Evaluates
  rw [← forall₂_and]
  refine forall₂_congr fun s hs => ?_
  rw [← forall_and]
  refine forall_congr' fun _ => ?_
  cases hwindow : s.validity.intersect? period with
  | none =>
    obtain ⟨hbefore, hbehind⟩ := Period.intersect?_eq_none_of_split h.start_lt h.lt_stop hwindow
    rw [hbefore, hbehind]
    simp
  | some window =>
    rcases Period.intersect?_split h.start_lt h.lt_stop hwindow with
      ⟨hbefore, hbehind⟩ | ⟨hbefore, hbehind⟩ | ⟨hinside, hbefore, hbehind⟩
    · rw [hbefore, hbehind]
      simp
    · rw [hbefore, hbehind]
      simp
    · -- the window is split, too
      have hsplits := splitsAt_window hperiod h hchanges hs hwindow hinside
      rw [hbefore, hbehind]
      simp only [Option.some.injEq, forall_eq']
      exact Formula.exists_evaluate_split_iff hinputs ((hslices s hs).intersect? hperiod hwindow)
        hsplits

/-- A location can be evaluated over a period exactly if it can be over both parts. -/
theorem evaluableOver_split_iff (hinputs : ∀ x ∈ inputs, ¬ x.2.period.start.IsLeap)
    (hperiod : period.OutsideLeaps) (hslices : ∀ s ∈ l.timeSlices, s.validity.OutsideLeaps)
    (h : period.SplitsAt output.resolution t) :
    l.EvaluableOver settings inputs period output ↔
      l.EvaluableOver settings inputs (period.upTo t) output ∧
        l.EvaluableOver settings inputs (period.onward t) output := by
  have hlt : period.start < period.stop := Int.lt_trans h.start_lt h.lt_stop
  have hwhole := h.whole_iff hperiod
  have hchanges : l.ChangesAt output.resolution period ↔ _ := changesAt_split_iff hperiod h
  have hcovered : (∀ u, period.contains u = true → ∃ s ∈ l.timeSlices, s.covers u = true) ↔
      (∀ u, (period.upTo t).contains u = true → ∃ s ∈ l.timeSlices, s.covers u = true) ∧
        ∀ u, (period.onward t).contains u = true → ∃ s ∈ l.timeSlices, s.covers u = true := by
    simp only [h.contains_iff, or_imp, forall_and]
  constructor
  · intro hl
    obtain ⟨hwhole, hwhole'⟩ := hwhole.1 hl.whole
    obtain ⟨hcovered, hcovered'⟩ := hcovered.1 hl.covered
    obtain ⟨hchanges, hchanges'⟩ := hchanges.1 hl.aligned
    obtain ⟨hevaluates, hevaluates'⟩ :=
      (evaluates_split_iff hinputs hperiod hslices h hl.aligned).1
        ((evaluates_iff hlt).1 hl.evaluated)
    exact ⟨⟨hwhole, hcovered, hchanges, (evaluates_iff h.start_lt).2 hevaluates⟩,
      hwhole', hcovered', hchanges', (evaluates_iff h.lt_stop).2 hevaluates'⟩
  · rintro ⟨hbefore, hbehind⟩
    have haligned := hchanges.2 ⟨hbefore.aligned, hbehind.aligned⟩
    refine ⟨hwhole.2 ⟨hbefore.whole, hbehind.whole⟩, hcovered.2 ⟨hbefore.covered, hbehind.covered⟩,
      haligned, (evaluates_iff hlt).2 ?_⟩
    exact (evaluates_split_iff hinputs hperiod hslices h haligned).2
      ⟨(evaluates_iff h.start_lt).1 hbefore.evaluated,
        (evaluates_iff h.lt_stop).1 hbehind.evaluated⟩

end FormulaLocation

/-! ### Intervals -/

/-- The interval in a position further behind. -/
def Interval.shift (n : Nat) (i : Interval) : Interval :=
  { i with position := i.position + n }

/-- The sample of a slice at an instant: that of its formula, or a missing one without data. -/
def TimeSlice.reading (s : TimeSlice) (inputs : Inputs) (r : Resolution) (t : Instant) :
    Option Sample :=
  match s.quality with
  | .noData => some .missing
  | .valid => s.formula.reading (Inputs.sampleAt? inputs r t)

/-- The samples of a slice on a grid are those at the starts of the intervals. -/
theorem TimeSlice.reading_of_samples {s : TimeSlice} {settings : Settings} {inputs : Inputs}
    {grid : Grid} {own : Array Sample} (h : s.samples settings inputs grid = .ok own) {i : Nat}
    (hi : i < grid.length) :
    s.reading inputs grid.resolution (grid.startOf i) = some (sampleOf own i) := by
  unfold TimeSlice.reading
  cases hquality : s.quality with
  | noData =>
    rw [TimeSlice.samples_of_noData hquality, Except.ok.injEq] at h
    rw [← h]
    simp [sampleOf, hi]
  | valid => exact Formula.reading_of_samples ((TimeSlice.samples_eq_ok_iff hquality).1 h) hi

namespace FormulaLocation

variable {l : FormulaLocation} {settings : Settings} {inputs : Inputs} {period : Period}
  {output : OutputSpec} {series : TimeSeries} {t : Instant}

/-- The sample of the slice in force at an instant. -/
def reading (l : FormulaLocation) (inputs : Inputs) (r : Resolution) (t : Instant) :
    Option Sample :=
  (l.sliceAt? t).bind fun s => s.reading inputs r t

/-- The interval at an index of a period, with a sample that is rounded. -/
def intervalAt (settings : Settings) (period : Period) (r : Resolution) (k : Nat) (x : Sample) :
    Interval :=
  Interval.atIndex period.start r k (Number.roundHalfAway x.value settings.quantityScale) x.quality

/-- Each interval of a location has the sample of the slice in force at its start. -/
theorem exists_reading_of_evaluate (hperiod : period.OutsideLeaps)
    (hslices : ∀ s ∈ l.timeSlices, s.validity.OutsideLeaps)
    (h : l.evaluate settings inputs period output = .ok series) :
    period.stop = period.start.after (output.resolution.span series.intervals.size) ∧
      ∀ k < series.intervals.size, ∃ x,
        l.reading inputs output.resolution (period.start.after (output.resolution.span k)) =
            some x ∧
          series.intervals[k]? = some (intervalAt settings period output.resolution k x) := by
  obtain ⟨grid, samples, rfl, hresolution, hsize, rfl, htakes⟩ :=
    exists_takesSample_of_evaluate hperiod hslices h
  rw [← hresolution, size_intervals_outputSeries]
  refine ⟨?_, fun k hk => ?_⟩
  · rw [hsize]
    exact (Grid.startOf_length hperiod).symm
  · obtain ⟨s, part, own, m, htakes⟩ := htakes k samples[k] (Array.getElem?_eq_getElem hk)
    have hread := TimeSlice.reading_of_samples htakes.samples htakes.lt_length
    have hsample : sampleOf own m = samples[k] := by
      rw [sampleOf, Array.getD_eq_getD_getElem?, htakes.sample, Option.getD_some]
    rw [htakes.start, htakes.resolution, hsample] at hread
    refine ⟨samples[k], ?_, ?_⟩
    · show l.reading inputs grid.resolution (grid.startOf k) = some samples[k]
      rw [reading, htakes.sliceAt?_eq]
      exact hread
    · rw [getElem?_intervals_outputSeries, Array.getElem?_eq_getElem hk]
      rfl

/-- An interval of the part behind the boundary is, further behind, one of the whole period. -/
theorem shift_intervalAt {r : Resolution} {j k : Nat} (hperiod : period.OutsideLeaps)
    (ht : t = period.start.after (r.span k)) (x : Sample) :
    (intervalAt settings (period.onward t) r j x).shift k =
      intervalAt settings period r (k + j) x := by
  have hopening : t.after (r.span j) = period.start.after (r.span (k + j)) := by
    rw [ht, Instant.after_after hperiod.1, ← Resolution.span_add]
  have hposition : (j + 1 : Int) + k = (k + j : Nat) + 1 := by
    push_cast
    ring
  simp only [Interval.shift, intervalAt, Interval.atIndex, Period.onward, hopening, hposition]

/-- The intervals over a period are those over its parts one after another. -/
theorem intervals_split (hperiod : period.OutsideLeaps)
    (hslices : ∀ s ∈ l.timeSlices, s.validity.OutsideLeaps)
    (h : period.SplitsAt output.resolution t) {before behind : TimeSeries}
    (hseries : l.evaluate settings inputs period output = .ok series)
    (hbefore : l.evaluate settings inputs (period.upTo t) output = .ok before)
    (hbehind : l.evaluate settings inputs (period.onward t) output = .ok behind) :
    series.intervals =
      before.intervals ++ behind.intervals.map (Interval.shift before.intervals.size) := by
  obtain ⟨hstop, hwhole⟩ := exists_reading_of_evaluate hperiod hslices hseries
  obtain ⟨ht, hfirst⟩ :=
    exists_reading_of_evaluate (h.upTo_outsideLeaps hperiod) hslices hbefore
  obtain ⟨hstop', hsecond⟩ :=
    exists_reading_of_evaluate (h.onward_outsideLeaps hperiod) hslices hbehind
  have ht : t = period.start.after (output.resolution.span before.intervals.size) := ht
  have hafter (j : Nat) : t.after (output.resolution.span j) =
      period.start.after (output.resolution.span (before.intervals.size + j)) := by
    rw [ht, Instant.after_after hperiod.1, ← Resolution.span_add]
  have hend : period.start.after (output.resolution.span series.intervals.size) =
      period.start.after
        (output.resolution.span (before.intervals.size + behind.intervals.size)) := by
    rw [← hafter, ← hstop]
    exact hstop'
  have hsize := (Resolution.after_span_inj hperiod.1).1 hend
  -- on either side of the boundary an interval is told by the instant at which it begins
  refine Array.ext_getElem? fun i => ?_
  by_cases hi : i < before.intervals.size
  · rw [Array.getElem?_append_left hi]
    obtain ⟨x, hx, hinterval⟩ := hwhole i (by omega)
    obtain ⟨x', hx', hinterval'⟩ := hfirst i hi
    obtain rfl := Option.some.inj (hx.symm.trans hx')
    exact hinterval.trans hinterval'.symm
  · rw [Array.getElem?_append_right (Nat.not_lt.1 hi), Array.getElem?_map]
    obtain ⟨j, rfl⟩ := Nat.exists_eq_add_of_le (Nat.not_lt.1 hi)
    rw [Nat.add_sub_cancel_left]
    by_cases hj : j < behind.intervals.size
    · obtain ⟨x, hx, hinterval⟩ := hwhole (before.intervals.size + j) (by omega)
      obtain ⟨x', hx', hinterval'⟩ := hsecond j hj
      have hread : l.reading inputs output.resolution (t.after (output.resolution.span j)) =
          some x' := hx'
      rw [hafter] at hread
      obtain rfl := Option.some.inj (hx.symm.trans hread)
      rw [hinterval, hinterval', Option.map_some, shift_intervalAt hperiod ht]
    · rw [Array.getElem?_eq_none (by omega), Array.getElem?_eq_none (by omega), Option.map_none]

/-! ### Main result -/

/-- A location is evaluated over a period exactly if it is over both parts of the period, split at a
boundary inside it.  The intervals are those of the first part and then those of the second, which
are counted on. -/
theorem evaluate_split (l : FormulaLocation) (settings : Settings) (inputs : Inputs)
    (period : Period) (output : OutputSpec) (t : Instant) (hperiod : period.OutsideLeaps)
    (hslices : ∀ s ∈ l.timeSlices, s.validity.OutsideLeaps)
    (hinputs : ∀ x ∈ inputs, ¬ x.2.period.start.IsLeap)
    (h : period.SplitsAt output.resolution t) :
    ((∃ series, l.evaluate settings inputs period output = .ok series) ↔
        (∃ before, l.evaluate settings inputs (period.upTo t) output = .ok before) ∧
          ∃ behind, l.evaluate settings inputs (period.onward t) output = .ok behind) ∧
      ∀ series before behind, l.evaluate settings inputs period output = .ok series →
        l.evaluate settings inputs (period.upTo t) output = .ok before →
          l.evaluate settings inputs (period.onward t) output = .ok behind →
            series.intervals =
              before.intervals ++ behind.intervals.map (Interval.shift before.intervals.size) := by
  constructor
  · rw [evaluableOver_iff hperiod hslices, evaluableOver_iff (h.upTo_outsideLeaps hperiod) hslices,
      evaluableOver_iff (h.onward_outsideLeaps hperiod) hslices]
    exact evaluableOver_split_iff hinputs hperiod hslices h
  · intro series before behind hseries hbefore hbehind
    exact intervals_split hperiod hslices h hseries hbefore hbehind

end FormulaLocation

/-- A single input series. -/
def Formula.metered : Formula :=
  .operand (.variable ⟨"meter", by decide⟩)

/-- The formula in force for two hours. -/
def TimeSlice.metered : List TimeSlice :=
  [⟨1, .valid, ⟨0, 0⟩, ⟨7200, 0⟩, .metered⟩]

/-- A location with a single slice. -/
def FormulaLocation.metered : FormulaLocation where
  location := .sample
  timeSlices := TimeSlice.metered
  sound := ⟨TimeSlice.metered, by decide +kernel, (List.mergeSort_singleton _).symm⟩

/-- Two quantities, one for each hour. -/
def Inputs.metered : Inputs :=
  [("meter", .ofValues "meter" "KWH" .hour ⟨0, 0⟩ [1, 2])]

/-- After the first of two hours the slice in force is split. -/
theorem FormulaLocation.evaluate_split_metered :
    Period.twoHours.OutsideLeaps ∧ (∀ s ∈ metered.timeSlices, s.validity.OutsideLeaps) ∧
      (∀ x ∈ Inputs.metered, ¬ x.2.period.start.IsLeap) ∧
        Period.twoHours.SplitsAt OutputSpec.hourly.resolution ⟨3600, 0⟩ ∧
          ∃ series before behind,
            metered.evaluate default .metered .twoHours .hourly = .ok series ∧
              metered.evaluate default .metered (Period.twoHours.upTo ⟨3600, 0⟩) .hourly =
                  .ok before ∧
                metered.evaluate default .metered (Period.twoHours.onward ⟨3600, 0⟩) .hourly =
                    .ok behind ∧
                  series.intervals = before.intervals ++
                    behind.intervals.map (Interval.shift before.intervals.size) := by
  have hperiod : Period.twoHours.OutsideLeaps := by decide
  have hslices : ∀ s ∈ metered.timeSlices, s.validity.OutsideLeaps := by decide
  have hinputs : ∀ x ∈ Inputs.metered, ¬ x.2.period.start.IsLeap :=
    List.forall_mem_singleton.2 (by decide)
  have hsplits : Period.twoHours.SplitsAt OutputSpec.hourly.resolution ⟨3600, 0⟩ :=
    ⟨by decide, by decide, 1, by decide⟩
  have hok : (metered.evaluate default .metered .twoHours .hourly).toOption.isSome = true := by
    decide +kernel
  obtain ⟨hiff, hintervals⟩ := metered.evaluate_split default .metered .twoHours .hourly ⟨3600, 0⟩
    hperiod hslices hinputs hsplits
  obtain ⟨series, hseries⟩ := Option.isSome_iff_exists.1 hok
  rw [toOption_eq_some_iff] at hseries
  obtain ⟨⟨before, hbefore⟩, behind, hbehind⟩ := hiff.1 ⟨series, hseries⟩
  exact ⟨hperiod, hslices, hinputs, hsplits, series, before, behind, hseries, hbefore, hbehind,
    hintervals series before behind hseries hbefore hbehind⟩

end EnergyFormula
