import EnergyFormula.Proofs.Evaluation.InForce
import EnergyFormula.Proofs.Evaluation.Narrowing

/-!
# The position of a failure

A slice that fails in an interval reports the position in its own series, which begins where the
slice begins to be in force, and a location reports the failure of its slice as it is.

* `exists_failsInWindow`: the first window whose slice fails, and the interval of the grid in which
  it does.
* `FormulaLocation.evaluate_of_covers`: over a period inside a single slice a location is that slice.
* `FormulaLocation.position_within_slice`: the reported position is counted from the start of the
  slice, and the location fails in the interval that lies that far behind it.
-/

namespace EnergyFormula

/-! ### Failures of the whole evaluation -/

theorem Grid.position_of_build_eq_error {period : Period} {resolution : Resolution} {e : EvalError}
    (h : build period resolution = .error e) : e.position = none := by
  unfold build at h
  split at h
  · split at h
    · cases h
    · cases h
      rfl
  · cases h
    rfl

theorem TimeSlice.position_of_window_eq_error {s : TimeSlice} {period : Period} {e : EvalError}
    (h : s.window period = .error e) : e.position = none := by
  unfold window at h
  split at h
  · cases h
  · cases h
    rfl

/-- A gap between slices, or a change within an interval, is no failure of an interval. -/
theorem position_of_coverWindows_eq_error {location : LocationId} {grid : Grid}
    {slices : List TimeSlice} {cursor : Instant} {e : EvalError}
    (h : coverWindows location grid cursor slices = .error e) : e.position = none := by
  induction slices generalizing cursor with
  | nil =>
    unfold coverWindows at h
    split at h
    · cases h
    · cases h
      rfl
  | cons s rest ih =>
    rw [coverWindows_cons] at h
    rcases bind_eq_error.1 h with h | ⟨window, _, h⟩
    · exact TimeSlice.position_of_window_eq_error h
    · split at h
      · cases h
        rfl
      · split at h
        · cases h
          rfl
        · rcases bind_eq_error.1 h with h | ⟨_, _, h⟩
          · exact ih h
          · cases h

/-! ### Slices -/

section Slices

variable {g : Grid} {inputs : Inputs}

/-- The samples of a slice narrow to the intervals of the grid, as those of its formula do. -/
theorem TimeSlice.narrowsTo_samples (hinputs : ∀ x ∈ inputs, x.2.OutsideLeaps)
    (hg : g.period.OutsideLeaps) (settings : Settings) (s : TimeSlice) :
    NarrowsTo g.length (fun samples i => #[sampleOf samples i]) (.inSlice s.id .divisionByZero)
      (s.samples settings inputs g) fun i => s.samples settings inputs (g.narrow hg i) := by
  unfold TimeSlice.samples
  cases s.quality with
  | noData => exact .of_ok fun i hi => congrArg Except.ok ((Signal.scalar .missing).samples_narrow hi)
  | valid =>
    have hformula := Formula.narrowsTo_samples hinputs hg settings.maxFormulaDepth s.formula
    cases h : s.formula.samples settings.maxFormulaDepth inputs g with
    | ok samples =>
      refine .of_ok fun i hi => ?_
      dsimp only
      rw [hformula.ok samples h i hi]
    | error e =>
      -- the failure is said of the slice, in the interval that it has
      refine ⟨nofun, ?_⟩
      rintro _ ⟨⟩
      refine (hformula.error e h).imp_right ?_
      rintro ⟨i, hi, rfl, halone⟩
      refine ⟨i, hi, rfl, ?_⟩
      dsimp only
      rw [halone]
      rfl

end Slices

/-! ### Windows -/

section Windows

variable {grid : Grid} {settings : Settings} {inputs : Inputs} {w : SliceWindow}
  {windows : List SliceWindow} {e : EvalError} {i j : Nat}

/-- A period that is covered is all that the two have in common. -/
theorem Period.intersect?_of_covers {p q : Period} (hne : q.start < q.stop)
    (h : p.covers q = true) : p.intersect? q = some q := by
  rw [covers, Bool.and_eq_true, decide_eq_true_eq, decide_eq_true_eq] at h
  have hstart : p.start.latest q.start = q.start := Instant.latest_of_le h.1
  have hstop : p.stop.earliest q.stop = q.stop := Instant.earliest_of_ge h.2
  refine intersect?_eq_some_iff.2 ⟨?_, hne⟩
  rw [hstart, hstop]

theorem Period.covers_periodOf (hg : grid.period.OutsideLeaps) {k : Nat} (hi : i ≤ k) (hj : k < j) :
    Period.covers ⟨grid.startOf i, grid.startOf j⟩ (grid.periodOf k) = true := by
  rw [covers, Bool.and_eq_true, decide_eq_true_eq, decide_eq_true_eq]
  exact ⟨(Grid.startOf_le_startOf_iff hg).2 hi, (Grid.startOf_le_startOf_iff hg).2 hj⟩

/-- The grid of a window is part of the whole grid, and so are its intervals. -/
theorem Grid.exists_build_window (hg : grid.period.OutsideLeaps) (hlt : i < j) :
    ∃ part, ∃ hpart : part.period.OutsideLeaps,
      build ⟨grid.startOf i, grid.startOf j⟩ grid.resolution = .ok part ∧ part.length = j - i ∧
        ∀ m, part.narrow hpart m = grid.narrow hg (i + m) := by
  obtain ⟨part, hbuild, hlength, hstart⟩ := exists_build_between hg hlt
  obtain ⟨hperiod, hresolution⟩ := build_eq_ok_iff.1 hbuild
  have hpart : part.period.OutsideLeaps := by
    rw [hperiod]
    exact ⟨not_isLeap_startOf hg i, not_isLeap_startOf hg j⟩
  refine ⟨part, hpart, hbuild, hlength, fun m => eq_of_period_eq ?_ hresolution⟩
  show (⟨part.startOf m, part.startOf (m + 1)⟩ : Period) =
    ⟨grid.startOf (i + m), grid.startOf (i + m + 1)⟩
  rw [hstart, hstart, Nat.add_assoc]

/-- From an interval on, windows that tile a grid fail with the window `w`, in the interval `m` of
it.  The failure is that of its slice on a grid of its own, and that of the slice over the interval
alone; over the intervals before the window the slices in force have samples. -/
structure FailsInWindow (settings : Settings) (inputs : Inputs) (hg : grid.period.OutsideLeaps)
    (windows : List SliceWindow) (i : Nat) (e : EvalError) (w : SliceWindow) (k j m : Nat) :
    Prop where
  mem : w ∈ windows
  window : w.window = ⟨grid.startOf k, grid.startOf j⟩
  lt_stop : k + m < j
  stop_le : j ≤ grid.length
  eq : e = .atPosition (.inSlice w.slice.id .divisionByZero) (Grid.position m)
  slice : ∃ part, Grid.build w.window grid.resolution = .ok part ∧
    w.slice.samples settings inputs part = .error e
  alone : w.slice.samples settings inputs (grid.narrow hg (k + m)) =
    .error (.atPosition e.cause (Grid.position 0))
  before : ∀ n, i ≤ n → n < k → ∃ v ∈ windows, v.window.covers (grid.periodOf n) = true ∧
    ∃ samples, v.slice.samples settings inputs (grid.narrow hg n) = .ok samples

/-- Windows that fail in an interval fail with the first window whose slice does. -/
theorem exists_failsInWindow (hinputs : ∀ x ∈ inputs, x.2.OutsideLeaps)
    (hg : grid.period.OutsideLeaps) (htiled : grid.TiledBy i windows)
    (h : windowSamples settings inputs grid.resolution windows = .error e)
    (hposition : e.position ≠ none) :
    ∃ w k j m, FailsInWindow settings inputs hg windows i e w k j m := by
  induction htiled with
  | nil => cases h
  | @cons i j w rest hwindow hlt htiled ih =>
    obtain ⟨part, hpart, hbuild, hlength, hnarrow⟩ := Grid.exists_build_window hg hlt
    rw [← hwindow] at hbuild
    have hslice := TimeSlice.narrowsTo_samples hinputs hpart settings w.slice
    rw [windowSamples, hbuild, ok_bind] at h
    rcases bind_eq_error.1 h with hown | ⟨own, hown, h⟩
    · -- the first window fails
      rcases hslice.error e hown with hnone | ⟨m, hm, rfl, halone⟩
      · exact absurd hnone hposition
      · rw [hnarrow] at halone
        rw [hlength] at hm
        exact ⟨w, i, j, m, List.mem_cons_self, hwindow, by omega, htiled.le_length, rfl,
          ⟨part, hbuild, hown⟩, halone, fun n hin hni => absurd hni (Nat.not_lt.2 hin)⟩
    · -- the first window has samples in all of its intervals, and a later one fails
      rcases bind_eq_error.1 h with h | ⟨_, _, h⟩
      · obtain ⟨v, k, j', m, hfails⟩ := ih h
        refine ⟨v, k, j', m, { hfails with
          mem := List.mem_cons_of_mem w hfails.mem, before := fun n hin hnk => ?_ }⟩
        by_cases hn : n < j
        · have hown' := hslice.ok own hown (n - i) (by omega)
          rw [hnarrow, Nat.add_sub_cancel' hin] at hown'
          refine ⟨w, List.mem_cons_self, ?_, _, hown'⟩
          rw [hwindow]
          exact Period.covers_periodOf hg hin hn
        · obtain ⟨u, hu, hbefore⟩ := hfails.before n (Nat.not_lt.1 hn) hnk
          exact ⟨u, List.mem_cons_of_mem w hu, hbefore⟩
      · cases h

end Windows

/-! ### A period inside one slice -/

namespace FormulaLocation

variable {l : FormulaLocation} {s : TimeSlice} {settings : Settings} {inputs : Inputs}
  {output : OutputSpec}

/-- Of a period inside a slice no other slice has a part. -/
theorem slicesOverlapping_of_covers {p : Period} (hs : s ∈ l.timeSlices)
    (hp : p.start < p.stop) (hcovers : s.validity.covers p = true) :
    l.slicesOverlapping p = [s] := by
  rw [Period.covers, Bool.and_eq_true, decide_eq_true_eq, decide_eq_true_eq] at hcovers
  have hmem : s ∈ l.slicesOverlapping p := by
    refine mem_slicesOverlapping_iff.2 ⟨hs, ?_⟩
    simp only [TimeSlice.validity, Instant.le_def, Instant.lt_def] at hcovers hp ⊢
    exact ⟨by omega, by omega⟩
  have hoverlap : ∀ t ∈ l.slicesOverlapping p, t.validFrom < p.stop ∧ p.start < t.validTo :=
    fun t ht => (mem_slicesOverlapping_iff.1 ht).2
  have hfollow : (l.slicesOverlapping p).Pairwise fun a b => a.validTo ≤ b.validFrom :=
    l.pairwise_timeSlices.sublist List.filter_sublist
  simp only [TimeSlice.validity, Instant.le_def, Instant.lt_def] at hcovers hp hoverlap hfollow
  cases hrow : l.slicesOverlapping p with
  | nil =>
    rw [hrow] at hmem
    cases hmem
  | cons a rest =>
    rw [hrow] at hmem hoverlap hfollow
    obtain ⟨ha, hrest⟩ := List.forall_mem_cons.1 hoverlap
    obtain ⟨hnext, _⟩ := List.pairwise_cons.1 hfollow
    -- what follows the first slice begins behind the period
    rcases List.mem_cons.1 hmem with rfl | hlater
    · cases rest with
      | nil => rfl
      | cons b rest =>
        have hb := hnext b List.mem_cons_self
        have hb' := (hrest b List.mem_cons_self).1
        omega
    · have hlater' := hnext s hlater
      omega

/-- Over a period inside a slice a location is evaluated as the slice is. -/
theorem evaluate_of_covers {g : Grid} (hg : g.period.OutsideLeaps)
    (hslices : ∀ s ∈ l.timeSlices, s.validity.OutsideLeaps) (hs : s ∈ l.timeSlices)
    (hcovers : s.validity.covers g.period = true) (hresolution : g.resolution = output.resolution) :
    l.evaluate settings inputs g.period output =
      s.samples settings inputs g >>= fun samples =>
        .ok (outputSeries settings output (some l.location) g samples) := by
  have hbuild : Grid.build g.period output.resolution = .ok g :=
    Grid.build_eq_ok_iff.2 ⟨rfl, hresolution⟩
  have hwindow : s.validity.intersect? g.period = some g.period :=
    Period.intersect?_of_covers g.nonempty hcovers
  have hwindows : coverWindows l.location g g.period.start [s] = .ok [⟨s, g.period⟩] := by
    rw [← Grid.startOf_zero, coverWindows_eq_ok_iff hg (List.forall_mem_singleton.2 (hslices s hs))]
    refine ⟨.cons ⟨rfl, hwindow⟩ .nil, .cons ?_ (Grid.length_pos hg) .nil⟩
    rw [Grid.startOf_zero, Grid.startOf_length hg]
  rw [evaluate, hbuild, ok_bind, slicesOverlapping_of_covers hs g.nonempty hcovers, hwindows,
    ok_bind, windowSamples, hbuild, ok_bind]
  cases s.samples settings inputs g with
  | error e => rfl
  | ok samples =>
    show Except.ok (outputSeries settings output (some l.location) g (samples ++ #[])) = _
    rw [Array.append_empty]
    rfl

/-! ### Main result -/

/-- The failure is one in the interval `k + m` of the grid, which lies in the window of a slice that
begins with the interval `k`: the slice itself reports it there, and so it has the position `m + 1`,
counted from the start of the window.  Over the interval alone the location fails for the same
cause, and it does not fail over any interval before the window. -/
structure FailsIn (l : FormulaLocation) (settings : Settings) (inputs : Inputs)
    (output : OutputSpec) (grid : Grid) (e : EvalError) (s : TimeSlice) (k m : Nat) : Prop where
  mem : s ∈ l.timeSlices
  lt_length : k + m < grid.length
  window : ∃ window, s.validity.intersect? grid.period = some window ∧
    window.start = grid.startOf k ∧ window.covers (grid.periodOf (k + m)) = true
  eq : e = .atPosition (.inSlice s.id .divisionByZero) (Grid.position m)
  slice : s.evaluate l.location settings inputs grid.period output = .error e
  alone : l.evaluate settings inputs (grid.periodOf (k + m)) output =
    .error (.atPosition e.cause (Grid.position 0))
  before : ∀ j < k, ∃ series, l.evaluate settings inputs (grid.periodOf j) output = .ok series

section Interval

variable {grid : Grid} {slices : List TimeSlice} {windows : List SliceWindow} {w : SliceWindow}
  {i : Nat}

/-- Over an interval inside the window of a slice a location is evaluated as the slice is. -/
theorem evaluate_periodOf (hg : grid.period.OutsideLeaps)
    (hslices : ∀ s ∈ l.timeSlices, s.validity.OutsideLeaps)
    (hparts : List.Forall₂ (SliceWindow.IsPart grid.period)
      (l.slicesOverlapping grid.period) windows)
    (hw : w ∈ windows) (hcovers : w.window.covers (grid.periodOf i) = true)
    (hresolution : grid.resolution = output.resolution) :
    l.evaluate settings inputs (grid.periodOf i) output =
      w.slice.samples settings inputs (grid.narrow hg i) >>= fun samples =>
        .ok (outputSeries settings output (some l.location) (grid.narrow hg i) samples) := by
  obtain ⟨s, hs, rfl, hwindow⟩ := exists_left_of_forall₂ hparts w hw
  have hmem := (mem_slicesOverlapping_iff.1 hs).1
  have hinside : w.slice.validity.covers (grid.periodOf i) = true := by
    obtain ⟨heq, _⟩ := Period.intersect?_eq_some_iff.1 hwindow
    rw [heq] at hcovers
    simp only [Period.covers, Bool.and_eq_true, decide_eq_true_eq, Instant.le_def,
      Instant.rank_latest, Instant.rank_earliest] at hcovers ⊢
    omega
  exact evaluate_of_covers (g := grid.narrow hg i) (Grid.periodOf_outsideLeaps hg i) hslices hmem
    hinside hresolution

/-- A failure in a window of the pass is one of the location. -/
theorem failsIn_of_failsInWindow {hg : grid.period.OutsideLeaps}
    (hslices : ∀ s ∈ l.timeSlices, s.validity.OutsideLeaps)
    (hparts : List.Forall₂ (SliceWindow.IsPart grid.period)
      (l.slicesOverlapping grid.period) windows) {e : EvalError} {k j m : Nat}
    (h : FailsInWindow settings inputs hg windows 0 e w k j m)
    (hresolution : grid.resolution = output.resolution) :
    l.FailsIn settings inputs output grid e w.slice k m := by
  obtain ⟨s, hs, rfl, hwindow⟩ := exists_left_of_forall₂ hparts w h.mem
  obtain ⟨part, hbuild, hsamples⟩ := h.slice
  have hcovers : w.window.covers (grid.periodOf (k + m)) = true := by
    rw [h.window]
    exact Period.covers_periodOf hg (Nat.le_add_right k m) h.lt_stop
  refine ⟨(mem_slicesOverlapping_iff.1 hs).1, Nat.lt_of_lt_of_le h.lt_stop h.stop_le,
    ⟨w.window, hwindow, by rw [h.window], hcovers⟩, h.eq, ?_, ?_, fun i hi => ?_⟩
  · rw [TimeSlice.evaluate, TimeSlice.window_eq_ok_iff.2 hwindow, ok_bind, ← hresolution, hbuild,
      ok_bind, hsamples]
    rfl
  · rw [evaluate_periodOf hg hslices hparts h.mem hcovers hresolution, h.alone]
    rfl
  · obtain ⟨v, hv, hinside, samples, hown⟩ := h.before i (Nat.zero_le i) hi
    rw [evaluate_periodOf hg hslices hparts hv hinside hresolution, hown]
    exact ⟨_, rfl⟩

end Interval

/-- Where a location fails in an interval, the position that it reports is counted from the start of
the slice that fails, not from the start of the period: the interval that fails is that many
intervals behind the first one in which the slice is in force.  So the position is right if the
slice is in force from the start of the period on, and names an interval that does not fail if it is
at most the number of intervals before the slice. -/
theorem position_within_slice (l : FormulaLocation) (settings : Settings) (inputs : Inputs)
    (period : Period) (output : OutputSpec) (hperiod : period.OutsideLeaps)
    (hslices : ∀ s ∈ l.timeSlices, s.validity.OutsideLeaps)
    (hinputs : ∀ x ∈ inputs, x.2.OutsideLeaps) (e : EvalError) (p : Int)
    (h : l.evaluate settings inputs period output = .error e) (hp : e.position = some p) :
    ∃ grid, Grid.build period output.resolution = .ok grid ∧ ∃ s k m,
      l.FailsIn settings inputs output grid e s k m ∧ p = Grid.position m := by
  have hposition : e.position ≠ none := by
    rw [hp]
    nofun
  -- the grid and the windows fail, if they do, in no interval
  rcases bind_eq_error.1 h with hgrid | ⟨grid, hgrid, h⟩
  · exact absurd (Grid.position_of_build_eq_error hgrid) hposition
  obtain ⟨rfl, hresolution⟩ := Grid.build_eq_ok_iff.1 hgrid
  rcases bind_eq_error.1 h with hwindows | ⟨windows, hwindows, h⟩
  · exact absurd (position_of_coverWindows_eq_error hwindows) hposition
  rcases bind_eq_error.1 h with hsamples | ⟨_, _, h⟩
  · obtain ⟨hparts, htiled⟩ :=
      (coverWindows_slicesOverlapping_eq_ok_iff hperiod hslices).1 hwindows
    rw [← hresolution] at hsamples
    obtain ⟨w, k, j, m, hfails⟩ :=
      exists_failsInWindow hinputs hperiod htiled hsamples hposition
    refine ⟨grid, hgrid, w.slice, k, m, failsIn_of_failsInWindow hslices hparts hfails hresolution,
      ?_⟩
    rw [hfails.eq] at hp
    exact (Option.some.inj hp).symm
  · cases h

end FormulaLocation

/-- An hour with the constant one, and an hour with the reciprocal of a series. -/
def TimeSlice.lateReciprocal : List TimeSlice :=
  [⟨1, .valid, ⟨0, 0⟩, ⟨3600, 0⟩, .constantOne⟩, ⟨2, .valid, ⟨3600, 0⟩, ⟨7200, 0⟩, .reciprocal⟩]

/-- The location with these slices. -/
def FormulaLocation.lateReciprocal : FormulaLocation where
  location := .sample
  timeSlices := TimeSlice.lateReciprocal
  sound := by
    refine ⟨TimeSlice.lateReciprocal, sliceDefects_eq_nil_iff.2 ⟨List.cons_ne_nil _ _, by decide, ?_⟩,
      (List.mergeSort_of_pairwise (List.pairwise_pair.2 (by decide))).symm⟩
    exact List.pairwise_pair.2 (.inl (by decide))

/-- The second of two hours fails, and the first position is reported: it is the first hour of the
slice. -/
theorem FormulaLocation.position_within_slice_lateReciprocal :
    Period.twoHours.OutsideLeaps ∧ (∀ s ∈ lateReciprocal.timeSlices, s.validity.OutsideLeaps) ∧
      (∀ x ∈ Inputs.fading, x.2.OutsideLeaps) ∧
        ∃ e, lateReciprocal.evaluate default .fading .twoHours .hourly = .error e ∧
          e.position = some 1 ∧
            ∃ s, lateReciprocal.FailsIn default .fading .hourly .twoHours e s 1 0 := by
  have hperiod : Period.twoHours.OutsideLeaps := by decide
  have hslices : ∀ s ∈ lateReciprocal.timeSlices, s.validity.OutsideLeaps := by decide
  have hinputs : ∀ x ∈ Inputs.fading, x.2.OutsideLeaps := by
    refine List.forall_mem_singleton.2 ⟨by decide, ?_⟩
    decide +kernel
  have hfails : (match lateReciprocal.evaluate default .fading .twoHours .hourly with
      | .error e => decide (e.position = some 1)
      | .ok _ => false) = true := by
    decide +kernel
  split at hfails
  · rename_i e he
    have hposition := of_decide_eq_true hfails
    obtain ⟨grid, hgrid, s, k, m, hin, hm⟩ := position_within_slice lateReciprocal default .fading
      .twoHours .hourly hperiod hslices hinputs e 1 he hposition
    obtain ⟨hgridPeriod, hresolution⟩ := Grid.build_eq_ok_iff.1 hgrid
    obtain rfl : grid = .twoHours := Grid.eq_of_period_eq hgridPeriod hresolution
    have hm : m = 0 := by
      unfold Grid.position at hm
      omega
    subst hm
    -- over the first hour nothing fails
    have hk : k ≠ 0 := by
      rintro rfl
      have hfirst : (lateReciprocal.evaluate default .fading (Grid.twoHours.periodOf 0)
          .hourly).toOption.isSome = true := by
        decide +kernel
      rw [hin.alone] at hfirst
      cases hfirst
    have hlt : k < 2 := hin.lt_length
    obtain rfl : k = 1 := by omega
    exact ⟨hperiod, hslices, hinputs, e, he, hposition, s, hin⟩
  · cases hfails

end EnergyFormula
