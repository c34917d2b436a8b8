import EnergyFormula.Proofs.Evaluation.Instants
import EnergyFormula.Proofs.Evaluation.Selection
import EnergyFormula.Proofs.Evaluation.Zeros
import EnergyFormula.Proofs.Series.Tiling
import EnergyFormula.Proofs.Time.Parts

/-!
# Buckets of finer intervals

A series that is brought onto a grid has in each interval of the grid the sample of those of its own
intervals that lie there.  The code finds them by counting steps from the start of the series; here
they are told by their times (`TimeSeries.within`).

* `TimeSeries.InStep`: the grid begins with an interval of the series, and every `ratio` intervals of
  the series with the next interval of the grid.
* `TimeSeries.InStep.within_periodOf`: the intervals that lie in an interval of the grid are the
  `ratio` ones that are counted.
* `TimeSeries.align_exact`: a series can be brought onto a grid exactly if the checks pass, and its
  samples are then those of the intervals inside.
-/

namespace EnergyFormula

/-! ### Lists cut by index -/

section Cut

variable {α : Type}

/-- The members that are told by their indices, `count` of them from `low` on. -/
theorem filter_eq_cut {keep : α → Bool} : ∀ {xs : List α} {low count : Nat},
    (∀ k x, xs[k]? = some x → (keep x = true ↔ low ≤ k ∧ k < low + count)) →
      xs.filter keep = (xs.drop low).take count
  | [], _, _, _ => by simp
  | x :: xs, 0, 0, h => by
    have hx : ¬ keep x = true := fun hkeep => absurd ((h 0 x rfl).1 hkeep).2 (Nat.not_lt_zero 0)
    have hrest : xs.filter keep = (xs.drop 0).take 0 :=
      filter_eq_cut fun k y hk => (h (k + 1) y hk).trans (by omega)
    rw [List.filter_cons_of_neg hx, hrest, List.take_zero, List.take_zero]
  | x :: xs, 0, count + 1, h => by
    have hx : keep x = true := (h 0 x rfl).2 ⟨Nat.le_refl 0, by omega⟩
    have hrest : xs.filter keep = (xs.drop 0).take count :=
      filter_eq_cut fun k y hk => (h (k + 1) y hk).trans (by omega)
    rw [List.filter_cons_of_pos hx, hrest]
    rfl
  | x :: xs, low + 1, count, h => by
    have hx : ¬ keep x = true := fun hkeep => absurd ((h 0 x rfl).1 hkeep).1 (Nat.not_succ_le_zero low)
    rw [List.filter_cons_of_neg hx, List.drop_succ_cons]
    exact filter_eq_cut fun k y hk => (h (k + 1) y hk).trans (by omega)

/-- Consecutive cuts of one width. -/
theorem flatMap_cuts (xs : List α) (low width : Nat) : ∀ count : Nat,
    (List.range count).flatMap (fun i => (xs.drop (low + width * i)).take width) =
      (xs.drop low).take (width * count)
  | 0 => by simp
  | count + 1 => by
    rw [List.range_succ, List.flatMap_append, flatMap_cuts xs low width count,
      List.flatMap_singleton, Nat.mul_succ, List.take_add, List.drop_drop]

end Cut

/-! ### The intervals inside a period -/

/-- The time of an interval. -/
def Interval.period (interval : Interval) : Period :=
  ⟨interval.start, interval.stop⟩

/-- The time of an interval of a grid. -/
def Grid.periodOf (g : Grid) (i : Nat) : Period :=
  ⟨g.startOf i, g.startOf (i + 1)⟩

/-- The period from one step of the series to a later one. -/
def TimeSeries.stretch (s : TimeSeries) (low count : Nat) : Period :=
  ⟨s.period.start.after (s.resolution.span low),
    s.period.start.after (s.resolution.span (low + count))⟩

/-- The intervals of a series that lie in a period. -/
def TimeSeries.within (s : TimeSeries) (p : Period) : List Interval :=
  s.intervals.toList.filter fun interval => p.covers interval.period

section Stretch

variable {s : TimeSeries} {low count k : Nat} {interval : Interval}

/-- Between two steps of a series lie the intervals whose indices do. -/
theorem TimeSeries.Tiles.covers_stretch_iff (hs : s.OutsideLeaps) (htiles : s.Tiles)
    (hk : s.intervals.toList[k]? = some interval) :
    (s.stretch low count).covers interval.period = true ↔ low ≤ k ∧ k < low + count := by
  obtain ⟨hstart, hstop⟩ := htiles.follow k interval hk
  rw [Period.covers, Bool.and_eq_true, decide_eq_true_eq, decide_eq_true_eq, stretch,
    Interval.period, hstart, hstop, Instant.after_le_after_iff hs.1.1,
    Instant.after_le_after_iff hs.1.1, Resolution.span_le_span_iff, Resolution.span_le_span_iff]
  exact and_congr_right fun _ => Nat.succ_le_iff

theorem TimeSeries.Tiles.within_stretch (hs : s.OutsideLeaps) (htiles : s.Tiles) :
    s.within (s.stretch low count) = (s.intervals.toList.drop low).take count :=
  filter_eq_cut fun _ _ hk => htiles.covers_stretch_iff hs hk

end Stretch

/-! ### Grids in step with a series -/

/-- The grid begins with the interval of the series at index `offset`, and lies in its period;
`ratio` intervals of the series make up one of the grid. -/
structure TimeSeries.InStep (s : TimeSeries) (g : Grid) (offset ratio : Nat) : Prop where
  ratio_pos : 0 < ratio
  stretch : ∀ i count, (⟨g.startOf i, g.startOf (i + count)⟩ : Period) =
    s.stretch (offset + ratio * i) (ratio * count)
  fits : offset + ratio * g.length ≤ s.intervals.size

section InStep

variable {s : TimeSeries} {g : Grid} {offset ratio i : Nat}

/-- A series that is aligned with a grid tiles its period, and is in step with the grid. -/
theorem TimeSeries.AlignsWith.exists_inStep (hs : s.OutsideLeaps) (hg : g.period.OutsideLeaps)
    (haligns : s.AlignsWith g.resolution g.period) :
    ∃ offset, s.InStep g offset (g.resolution.seconds / s.resolution.seconds) ∧ s.Tiles := by
  have htiles := ((TimeSeries.checkEvaluable_eq_ok_iff hs).1 haligns.evaluable).1
  obtain ⟨ratio, hratio⟩ := Nat.dvd_of_mod_eq_zero (of_decide_eq_true haligns.divides)
  have hquotient : g.resolution.seconds / s.resolution.seconds = ratio := by
    rw [hratio, Nat.mul_div_cancel_left _ s.resolution.positive]
  have hpos : 0 < ratio := by
    refine Nat.pos_of_ne_zero ?_
    rintro rfl
    exact absurd hratio (Nat.ne_of_gt g.resolution.positive)
  obtain ⟨hstart, hstop⟩ : s.period.start ≤ g.period.start ∧ g.period.stop ≤ s.period.stop := by
    have hcovers := haligns.covers
    rw [Period.covers, Bool.and_eq_true, decide_eq_true_eq, decide_eq_true_eq] at hcovers
    exact hcovers
  obtain ⟨offset, hoffset⟩ := (Resolution.isAligned_iff hs.1.1 hg.1 hstart).1 haligns.inPhase
  -- the steps of the grid, counted from the start of the series
  have hstartOf (i : Nat) :
      g.startOf i = s.period.start.after (s.resolution.span (offset + ratio * i)) := by
    rw [Grid.startOf, hoffset, Instant.after_after hs.1.1, Resolution.span_add]
    congr 2
    rw [Resolution.span, Resolution.span, hratio, Nat.mul_assoc]
  rw [hquotient]
  refine ⟨offset, ⟨hpos, fun i count => ?_, ?_⟩, htiles⟩
  · rw [hstartOf, hstartOf, stretch, Nat.mul_add, ← Nat.add_assoc]
  · rw [← Grid.startOf_length hg, hstartOf, htiles.stop, Instant.after_le_after_iff hs.1.1,
      Resolution.span_le_span_iff] at hstop
    exact hstop

namespace TimeSeries.InStep

theorem periodOf_eq (h : s.InStep g offset ratio) (i : Nat) :
    g.periodOf i = s.stretch (offset + ratio * i) ratio := by
  rw [Grid.periodOf, h.stretch, Nat.mul_one]

theorem period_eq (h : s.InStep g offset ratio) (hg : g.period.OutsideLeaps) :
    g.period = s.stretch offset (ratio * g.length) := by
  have hstretch := h.stretch 0 g.length
  rw [Nat.zero_add, Grid.startOf_zero, Grid.startOf_length hg] at hstretch
  exact hstretch

theorem startOf_eq (h : s.InStep g offset ratio) (i : Nat) :
    g.startOf i = s.period.start.after (s.resolution.span (offset + ratio * i)) :=
  congrArg Period.start (h.periodOf_eq i)

/-- All intervals of the series that make up an interval of the grid are there. -/
theorem add_le_size (h : s.InStep g offset ratio) (hi : i < g.length) :
    offset + ratio * i + ratio ≤ s.intervals.size := by
  have hnext : ratio * (i + 1) ≤ ratio * g.length := Nat.mul_le_mul_left ratio hi
  have hfits := h.fits
  rw [Nat.mul_succ] at hnext
  omega

/-- In an interval of the grid lie the `ratio` intervals that begin with the one at its start. -/
theorem within_periodOf (h : s.InStep g offset ratio) (hs : s.OutsideLeaps) (htiles : s.Tiles)
    (i : Nat) : s.within (g.periodOf i) =
      (s.intervals.toList.drop (offset + ratio * i)).take ratio := by
  rw [h.periodOf_eq, htiles.within_stretch hs]

theorem length_within_periodOf (h : s.InStep g offset ratio) (hs : s.OutsideLeaps)
    (htiles : s.Tiles) (hi : i < g.length) : (s.within (g.periodOf i)).length = ratio := by
  have hsize := h.add_le_size hi
  rw [h.within_periodOf hs htiles, List.length_take, List.length_drop, Array.length_toList]
  omega

/-- The interval at the start of an interval of the grid is found. -/
theorem indexAt?_startOf (h : s.InStep g offset ratio) (hs : s.OutsideLeaps) (htiles : s.Tiles)
    (hi : i < g.length) : s.indexAt? (g.startOf i) = some (offset + ratio * i) := by
  have hratio := h.ratio_pos
  have hsize := h.add_le_size hi
  have hlt : offset + ratio * i < s.intervals.size := by omega
  have hcontains : s.period.contains (g.startOf i) = true := by
    have hzero : s.period.start.after 0 ≤ g.startOf i := by
      rw [h.startOf_eq, Instant.after_le_after_iff hs.1.1]
      exact Nat.zero_le _
    rw [Period.contains, Bool.and_eq_true, decide_eq_true_eq, decide_eq_true_eq, htiles.stop]
    refine ⟨hzero, ?_⟩
    rw [h.startOf_eq, Instant.after_lt_after_iff hs.1.1, Resolution.span_lt_span_iff]
    exact hlt
  have hsteps : s.resolution.stepsBetween? s.period.start (g.startOf i) =
      some (offset + ratio * i) := by
    have hleap : ¬ (g.startOf i).IsLeap := by
      rw [h.startOf_eq]
      exact Instant.not_isLeap_after hs.1.1 _
    exact (Resolution.stepsBetween?_eq_some_iff hs.1.1 hleap).2 (h.startOf_eq i)
  exact indexAt?_eq_some_iff.2 ⟨hcontains, hsteps, hlt⟩

/-- Every interval of the grid has a sample, that of the intervals inside. -/
theorem bucketAt_eq (h : s.InStep g offset ratio) (hs : s.OutsideLeaps) (htiles : s.Tiles)
    (hi : i < g.length) :
    bucketAt s g ratio i = .ok (bucketSample (s.within (g.periodOf i))) := by
  unfold bucketAt
  dsimp only
  rw [h.indexAt?_startOf hs htiles hi]
  dsimp only
  rw [if_pos (h.add_le_size hi), h.within_periodOf hs htiles, Array.toList_extract,
    List.extract_eq_take_drop, Nat.add_sub_cancel_left]

/-- An interval of the series inside the grid lies in exactly one of its intervals. -/
theorem existsUnique_periodOf (h : s.InStep g offset ratio) (hs : s.OutsideLeaps)
    (hg : g.period.OutsideLeaps) (htiles : s.Tiles) {interval : Interval}
    (hmem : interval ∈ s.intervals) (hinside : g.period.covers interval.period = true) :
    ∃! i, i < g.length ∧ (g.periodOf i).covers interval.period = true := by
  obtain ⟨k, hk⟩ := List.mem_iff_getElem?.1 (Array.mem_toList_iff.2 hmem)
  have hratio := h.ratio_pos
  rw [h.period_eq hg, htiles.covers_stretch_iff hs hk] at hinside
  obtain ⟨hlow, hhigh⟩ := hinside
  -- the index in the grid is the quotient of the index behind the offset
  have hquotient : ∀ i, (g.periodOf i).covers interval.period = true ↔ (k - offset) / ratio = i := by
    intro i
    rw [h.periodOf_eq, htiles.covers_stretch_iff hs hk, Nat.div_eq_iff hratio]
    have hcomm : i * ratio = ratio * i := Nat.mul_comm i ratio
    omega
  refine ⟨(k - offset) / ratio, ⟨?_, (hquotient _).2 rfl⟩, fun i hi => ((hquotient i).1 hi.2).symm⟩
  rw [Nat.div_lt_iff_lt_mul hratio, Nat.mul_comm]
  omega

end TimeSeries.InStep

end InStep

/-! ### The worst quality -/

/-- The quality is one of those given, and none of them is worse. -/
def IntervalQuality.IsWorstOf (q : IntervalQuality) (qualities : List IntervalQuality) : Prop :=
  q ∈ qualities ∧ ∀ r ∈ qualities, r.rank ≤ q.rank

theorem IntervalQuality.worst_eq_or (a b : IntervalQuality) : a.worst b = a ∨ a.worst b = b := by
  unfold worst
  split
  · exact .inr rfl
  · exact .inl rfl

theorem worstQuality_mem (q : IntervalQuality) (rest : List IntervalQuality) :
    worstQuality (q :: rest) ∈ q :: rest := by
  induction rest generalizing q with
  | nil => exact List.mem_singleton.2 rfl
  | cons r rest ih =>
    have hworst : worstQuality (q :: r :: rest) ∈ q.worst r :: rest := ih (q.worst r)
    rcases List.mem_cons.1 hworst with hfirst | hrest
    · rw [hfirst]
      rcases q.worst_eq_or r with h | h <;> simp [h]
    · exact List.mem_cons_of_mem q (List.mem_cons_of_mem r hrest)

theorem isWorstOf_worstQuality {qualities : List IntervalQuality} (h : qualities ≠ []) :
    (worstQuality qualities).IsWorstOf qualities := by
  constructor
  · cases qualities with
    | nil => exact absurd rfl h
    | cons q rest => exact worstQuality_mem q rest
  · rw [worstQuality_eq_worstOf h]
    exact IntervalQuality.rank_worstOf_le_iff.1 (Nat.le_refl _)

/-! ### Main result -/

/-- There is a sample for each interval of the grid: the sum, from left to right, of the quantities
of the intervals of the series inside, as good as the worst of them.  Bucket after bucket they are
the intervals of the series inside the grid, and each of these lies in one bucket. -/
structure TimeSeries.Buckets (s : TimeSeries) (g : Grid) (samples : Array Sample) : Prop where
  size : samples.size = g.length
  value : ∀ i (sample : Sample), samples[i]? = some sample →
    sample.value = sumFromLeft ((s.within (g.periodOf i)).map Interval.quantity)
  quality : ∀ i (sample : Sample), samples[i]? = some sample →
    sample.quality.IsWorstOf ((s.within (g.periodOf i)).map Interval.quality)
  partition : (List.range g.length).flatMap (fun i => s.within (g.periodOf i)) = s.within g.period
  once : ∀ interval ∈ s.intervals, g.period.covers interval.period = true →
    ∃! i, i < g.length ∧ (g.periodOf i).covers interval.period = true

namespace TimeSeries

variable {s : TimeSeries} {g : Grid} {offset : Nat} {samples : Array Sample}

/-- A series that can be brought onto the grid is: no interval of the grid is without a sample. -/
theorem InStep.align_eq
    (h : s.InStep g offset (g.resolution.seconds / s.resolution.seconds)) (hs : s.OutsideLeaps)
    (htiles : s.Tiles) (haligns : s.AlignsWith g.resolution g.period) :
    align s g = .ok ((List.range g.length).map fun i =>
      bucketSample (s.within (g.periodOf i))).toArray := by
  have hrow : (List.range g.length).mapM
      (bucketAt s g (g.resolution.seconds / s.resolution.seconds)) =
        .ok ((List.range g.length).map fun i => bucketSample (s.within (g.periodOf i))) := by
    refine mapM_eq_ok_iff.2 (List.forall₂_map_right_iff.2 (List.forall₂_same.2 fun i hi => ?_))
    exact h.bucketAt_eq hs htiles (List.mem_range.1 hi)
  unfold align
  rw [checkAlignment_eq_ok_iff.2 haligns]
  dsimp only
  rw [hrow]
  rfl

theorem InStep.buckets {ratio : Nat} (h : s.InStep g offset ratio) (hs : s.OutsideLeaps)
    (hg : g.period.OutsideLeaps) (htiles : s.Tiles) :
    s.Buckets g ((List.range g.length).map fun i =>
      bucketSample (s.within (g.periodOf i))).toArray := by
  have hsample : ∀ i sample, ((List.range g.length).map fun i =>
      bucketSample (s.within (g.periodOf i))).toArray[i]? = some sample →
        i < g.length ∧ sample = bucketSample (s.within (g.periodOf i)) := by
    intro i sample hi
    rw [List.getElem?_toArray, List.getElem?_map, Option.map_eq_some_iff] at hi
    obtain ⟨j, hj, rfl⟩ := hi
    obtain ⟨hlt, rfl⟩ := List.getElem?_eq_some_iff.1 hj
    rw [List.length_range] at hlt
    rw [List.getElem_range]
    exact ⟨hlt, rfl⟩
  refine ⟨?_, fun i sample hi => ?_, fun i sample hi => ?_, ?_, fun interval hmem hinside =>
    h.existsUnique_periodOf hs hg htiles hmem hinside⟩
  · rw [List.size_toArray, List.length_map, List.length_range]
  · obtain ⟨_, rfl⟩ := hsample i sample hi
    rfl
  · obtain ⟨hlt, rfl⟩ := hsample i sample hi
    refine isWorstOf_worstQuality fun hnil => ?_
    -- a bucket holds as many intervals as the ratio says
    have hlength := h.length_within_periodOf hs htiles hlt
    rw [List.map_eq_nil_iff.1 hnil, List.length_nil] at hlength
    exact absurd hlength (Nat.ne_of_lt h.ratio_pos)
  · rw [h.period_eq hg, htiles.within_stretch hs, ← flatMap_cuts]
    simp only [h.within_periodOf hs htiles]

/-- A series that is not brought onto the grid fails one of the checks, in no interval of the
grid. -/
theorem cause_of_align_error (hs : s.OutsideLeaps) (hg : g.period.OutsideLeaps) {e : EvalError}
    (h : align s g = .error e) : e.position = none ∧ checkAlignment s g = .error e.cause := by
  cases hcheck : checkAlignment s g with
  | error cause =>
    unfold align at h
    rw [hcheck] at h
    cases h
    exact ⟨rfl, rfl⟩
  | ok =>
    have haligns := checkAlignment_eq_ok_iff.1 hcheck
    obtain ⟨offset, hstep, htiles⟩ := haligns.exists_inStep hs hg
    rw [hstep.align_eq hs htiles haligns] at h
    cases h

/-- The alignment of a series is exact.  It succeeds exactly if the series can be calculated with,
its steps divide those of the grid and are in phase with them, and it covers the grid; otherwise one
of these checks fails, and no interval of the grid is to blame.  The samples are then the sums over
the intervals of the series inside each interval of the grid. -/
theorem align_exact (hs : s.OutsideLeaps) (hg : g.period.OutsideLeaps) :
    ((∃ samples, align s g = .ok samples) ↔
      s.checkEvaluable = .ok () ∧ s.resolution.divides g.resolution = true ∧
        s.resolution.isAligned s.period.start g.period.start = true ∧
          s.period.covers g.period = true) ∧
      (∀ e, align s g = .error e →
        e.position = none ∧ checkAlignment s g = .error e.cause) ∧
        ∀ samples, align s g = .ok samples → s.Buckets g samples := by
  refine ⟨⟨?_, ?_⟩, fun e he => cause_of_align_error hs hg he, fun samples hsamples => ?_⟩
  · rintro ⟨samples, hsamples⟩
    have haligns := alignsWith_of_align hsamples
    exact ⟨haligns.evaluable, haligns.divides, haligns.inPhase, haligns.covers⟩
  · rintro ⟨hevaluable, hdivides, hphase, hcovers⟩
    -- what divides is not greater
    have hfiner : s.resolution.seconds ≤ g.resolution.seconds :=
      Nat.le_of_dvd g.resolution.positive (Nat.dvd_of_mod_eq_zero (of_decide_eq_true hdivides))
    have haligns : s.AlignsWith g.resolution g.period :=
      ⟨hevaluable, hfiner, hdivides, hphase, hcovers⟩
    obtain ⟨offset, hstep, htiles⟩ := haligns.exists_inStep hs hg
    exact ⟨_, hstep.align_eq hs htiles haligns⟩
  · have haligns := alignsWith_of_align hsamples
    obtain ⟨offset, hstep, htiles⟩ := haligns.exists_inStep hs hg
    rw [hstep.align_eq hs htiles haligns] at hsamples
    cases hsamples
    exact hstep.buckets hs hg htiles

end TimeSeries

/-- Half an hour. -/
def Resolution.halfHour : Resolution :=
  ⟨1800, by decide, by decide⟩

/-- Half hours from one before the two hours on, the third of them estimated. -/
def TimeSeries.halfHours : TimeSeries :=
  let s := ofValues "x" "KWH" .halfHour ⟨-1800, 0⟩ [1, 2, 3, 4, 5]
  { s with intervals := s.intervals.modify 2 fun i => { i with quality := .estimated } }

/-- Over the two hours the half hours are summed up in pairs. -/
theorem TimeSeries.align_exact_halfHours :
    halfHours.OutsideLeaps ∧ Grid.twoHours.period.OutsideLeaps ∧
      ∃ samples, align halfHours .twoHours = .ok samples ∧ halfHours.Buckets .twoHours samples := by
  have hs : halfHours.OutsideLeaps := by
    refine ⟨by decide, ?_⟩
    decide +kernel
  have hg : Grid.twoHours.period.OutsideLeaps := by decide
  obtain ⟨hiff, _, hbuckets⟩ := align_exact hs hg
  obtain ⟨samples, hsamples⟩ := hiff.2 ⟨rfl, by decide, by decide, by decide⟩
  exact ⟨hs, hg, samples, hsamples, hbuckets samples hsamples⟩

end EnergyFormula
