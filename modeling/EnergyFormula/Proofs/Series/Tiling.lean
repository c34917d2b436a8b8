import EnergyFormula.Proofs.Outcome
import EnergyFormula.Proofs.Time.Steps
import EnergyFormula.Series.Basic

/-!
# Series that tile their period

A series can be calculated with exactly if its intervals tile the period and its quantities are
finite (`TimeSeries.checkEvaluable_eq_ok_iff`).  The pass over the intervals carries the instant at
which the next one is to begin; `TimeSeries.checkIntervals_eq_ok_iff` says for every such instant
where the intervals behind it lie.  In closed form, interval by interval, this is
`TimeSeries.checkEvaluable_iff_steps`.
-/

namespace EnergyFormula

/-- From an instant on the intervals follow one another, each of them one step long. -/
def FollowFrom (r : Resolution) (start : Instant) (intervals : List Interval) : Prop :=
  ∀ k i, intervals[k]? = some i →
    i.start = start.after (r.span k) ∧ i.stop = start.after (r.span (k + 1))

theorem followFrom_nil (r : Resolution) (start : Instant) : FollowFrom r start [] := by
  intro k i h
  rw [List.getElem?_nil] at h
  cases h

/-- Behind the first interval the others follow from its end on. -/
theorem followFrom_cons {r : Resolution} {start : Instant} (hstart : ¬ start.IsLeap)
    {interval : Interval} {rest : List Interval} :
    FollowFrom r start (interval :: rest) ↔
      (interval.start = start ∧ interval.stop = start.after r.seconds) ∧
        FollowFrom r (start.after r.seconds) rest := by
  have hzero : start.after (r.span 0) = start := by
    rw [Resolution.span, Nat.mul_zero, Instant.after_zero]
  have hone : r.span (0 + 1) = r.seconds := Nat.mul_one _
  have hnext (k : Nat) :
      (start.after r.seconds).after (r.span k) = start.after (r.span (k + 1)) := by
    rw [Instant.after_after hstart, Nat.add_comm k, Resolution.span_add, ← hone]
  constructor
  · intro h
    have hfirst := h 0 interval rfl
    rw [hzero, hone] at hfirst
    refine ⟨hfirst, fun k i hk => ?_⟩
    rw [hnext, hnext]
    exact h (k + 1) i hk
  · rintro ⟨hfirst, hrest⟩ k i hk
    cases k with
    | zero =>
      cases hk
      rw [hzero, hone]
      exact hfirst
    | succ k =>
      rw [← hnext, ← hnext]
      exact hrest k i hk

/-- Every quantity of the series is a finite number. -/
def TimeSeries.IsFinite (s : TimeSeries) : Prop :=
  ∀ i ∈ s.intervals, i.quantity.isFinite = true

/-- No instant of the series lies in a leap second. -/
def TimeSeries.OutsideLeaps (s : TimeSeries) : Prop :=
  s.period.OutsideLeaps ∧ ∀ i ∈ s.intervals, ¬ i.start.IsLeap ∧ ¬ i.stop.IsLeap

instance (s : TimeSeries) : Decidable s.OutsideLeaps :=
  inferInstanceAs (Decidable (s.period.OutsideLeaps ∧
    ∀ i ∈ s.intervals, ¬ i.start.IsLeap ∧ ¬ i.stop.IsLeap))

/-- The intervals follow one another, in the order of their positions, from the start of the period
to its end. -/
structure TimeSeries.Tiles (s : TimeSeries) : Prop where
  nonempty : s.period.start < s.period.stop
  positions : s.intervals.toList.Pairwise (·.position < ·.position)
  follow : FollowFrom s.resolution s.period.start s.intervals.toList
  stop : s.period.stop = s.period.start.after (s.resolution.span s.intervals.size)

namespace TimeSeries

section Pass

variable {r : Resolution} {previous : Option Int} {cursor stop : Instant} {interval : Interval}
  {rest intervals : List Interval}

/-- A step of the pass: the interval begins at the cursor, lasts one step and has a finite
quantity. -/
theorem checkIntervals_cons_eq_ok_iff :
    checkIntervals r previous cursor (interval :: rest) = .ok stop ↔
      (∀ p ∈ previous, p < interval.position) ∧ interval.start = cursor ∧
        interval.stop.since interval.start = r.nanos ∧ interval.quantity.isFinite = true ∧
          checkIntervals r (some interval.position) interval.stop rest = .ok stop := by
  have hprevious : previous.filter (interval.position ≤ ·) = none ↔
      ∀ p ∈ previous, p < interval.position := by
    rw [Option.filter_eq_none_iff]
    refine forall₂_congr fun p _ => ?_
    rw [decide_eq_true_eq, Int.not_le]
  rw [checkIntervals, ← hprevious]
  cases previous.filter (interval.position ≤ ·) with
  | some p => exact iff_of_false (by nofun) (by nofun)
  | none =>
    rw [and_iff_right rfl]
    dsimp only
    by_cases hstart : interval.start = cursor
    · rw [if_neg (not_not_intro hstart), and_iff_right hstart]
      by_cases hlength : interval.stop.since interval.start = r.nanos
      · rw [if_neg (not_not_intro hlength), and_iff_right hlength]
        by_cases hfinite : interval.quantity.isFinite = true
        · rw [and_iff_right hfinite, hfinite]
          rfl
        · rw [Bool.not_eq_true] at hfinite
          rw [hfinite]
          exact iff_of_false (by nofun) (by nofun)
      · rw [if_pos hlength]
        exact iff_of_false (by nofun) fun h => hlength h.1
    · rw [if_pos hstart]
      exact iff_of_false (by nofun) fun h => hstart h.1

/-- A pass that ends has met finite quantities only. -/
theorem isFinite_of_checkIntervals (h : checkIntervals r previous cursor intervals = .ok stop) :
    ∀ i ∈ intervals, i.quantity.isFinite = true := by
  induction intervals generalizing previous cursor with
  | nil => exact List.forall_mem_nil _
  | cons interval rest ih =>
    obtain ⟨_, _, _, hfinite, hrest⟩ := checkIntervals_cons_eq_ok_iff.1 h
    exact List.forall_mem_cons.2 ⟨hfinite, ih hrest⟩

/-- The pass from a cursor on: the intervals follow from there, their positions increase and their
quantities are finite. -/
theorem checkIntervals_eq_ok_iff (hcursor : ¬ cursor.IsLeap)
    (hleaps : ∀ i ∈ intervals, ¬ i.stop.IsLeap) :
    checkIntervals r previous cursor intervals = .ok stop ↔
      (∀ p ∈ previous, ∀ i ∈ intervals, p < i.position) ∧
        intervals.Pairwise (·.position < ·.position) ∧ FollowFrom r cursor intervals ∧
          (∀ i ∈ intervals, i.quantity.isFinite = true) ∧
            stop = cursor.after (r.span intervals.length) := by
  induction intervals generalizing previous cursor with
  | nil =>
    have hspan : cursor.after (r.span ([] : List Interval).length) = cursor := by
      rw [List.length_nil, Resolution.span, Nat.mul_zero, Instant.after_zero]
    rw [checkIntervals, Except.ok.injEq, hspan, eq_comm]
    constructor
    · intro h
      exact ⟨fun _ _ => List.forall_mem_nil _, .nil, followFrom_nil r cursor,
        List.forall_mem_nil _, h⟩
    · rintro ⟨_, _, _, _, h⟩
      exact h
  | cons interval rest ih =>
    obtain ⟨hleap, hrest⟩ := List.forall_mem_cons.1 hleaps
    rw [checkIntervals_cons_eq_ok_iff, ih hleap hrest, followFrom_cons hcursor,
      List.pairwise_cons, List.forall_mem_cons]
    have hspan : (cursor.after r.seconds).after (r.span rest.length) =
        cursor.after (r.span (interval :: rest).length) := by
      have hone : r.span 1 = r.seconds := Nat.mul_one _
      rw [Instant.after_after hcursor, List.length_cons, Nat.add_comm, Resolution.span_add, hone]
    constructor
    · rintro ⟨hprevious, rfl, hlength, hfinite, hpositions, hpairwise, hfollow, hfinites, rfl⟩
      have hstop : interval.stop = interval.start.after r.seconds :=
        (Instant.since_eq_iff hcursor hleap).1 hlength
      rw [hstop] at hfollow ⊢
      have hpositions' := hpositions interval.position rfl
      refine ⟨fun p hp i hi => ?_, ⟨hpositions', hpairwise⟩, ⟨⟨rfl, rfl⟩, hfollow⟩,
        ⟨hfinite, hfinites⟩, hspan⟩
      -- what lies behind the first interval has a greater position still
      rcases List.mem_cons.1 hi with rfl | hi
      · exact hprevious p hp
      · exact Int.lt_trans (hprevious p hp) (hpositions' i hi)
    · rintro ⟨hprevious, ⟨hpositions, hpairwise⟩, ⟨⟨rfl, hstop⟩, hfollow⟩, ⟨hfinite, hfinites⟩,
        rfl⟩
      rw [← hspan, hstop]
      refine ⟨fun p hp => hprevious p hp interval List.mem_cons_self, rfl,
        Instant.since_after hcursor r.seconds, hfinite, ?_, hpairwise, hfollow, hfinites, rfl⟩
      rintro p ⟨⟩
      exact hpositions

end Pass

theorem checkEvaluable_eq_ok_iff_checkTiling {s : TimeSeries} :
    s.checkEvaluable = .ok () ↔ s.checkTiling = .ok () := by
  unfold checkEvaluable
  cases s.checkTiling with
  | ok _ => exact iff_of_true rfl rfl
  | error defect => exact iff_of_false (by nofun) (by nofun)

theorem checkTiling_eq_ok_iff {s : TimeSeries} :
    s.checkTiling = .ok () ↔ s.period.start < s.period.stop ∧
      checkIntervals s.resolution none s.period.start s.intervals.toList = .ok s.period.stop := by
  unfold checkTiling
  by_cases hperiod : s.period.start < s.period.stop
  · rw [if_neg (not_not_intro hperiod), and_iff_right hperiod]
    show (checkIntervals s.resolution none s.period.start s.intervals.toList >>= fun stop =>
      if stop ≠ s.period.stop then .error (.wrongEnd stop s.period.stop) else .ok ()) = .ok () ↔ _
    rw [bind_eq_ok]
    constructor
    · rintro ⟨stop, hstop, h⟩
      split at h
      · cases h
      · rename_i heq
        rw [hstop, Decidable.not_not.1 heq]
    · intro h
      exact ⟨_, h, if_neg (not_not_intro rfl)⟩
  · rw [if_pos hperiod]
    exact iff_of_false (by nofun) fun h => hperiod h.1

/-- A series that can be calculated with is finite, leap seconds or not. -/
theorem isFinite_of_checkEvaluable {s : TimeSeries} (h : s.checkEvaluable = .ok ()) :
    s.IsFinite := by
  rw [checkEvaluable_eq_ok_iff_checkTiling, checkTiling_eq_ok_iff] at h
  exact fun i hi => isFinite_of_checkIntervals h.2 i (Array.mem_toList_iff.2 hi)

/-- A series can be calculated with exactly if its intervals tile the period and its quantities are
finite. -/
theorem checkEvaluable_eq_ok_iff {s : TimeSeries} (hs : s.OutsideLeaps) :
    s.checkEvaluable = .ok () ↔ s.Tiles ∧ s.IsFinite := by
  have hleaps : ∀ i ∈ s.intervals.toList, ¬ i.stop.IsLeap := fun i hi =>
    (hs.2 i (Array.mem_toList_iff.1 hi)).2
  rw [checkEvaluable_eq_ok_iff_checkTiling, checkTiling_eq_ok_iff,
    checkIntervals_eq_ok_iff hs.1.1 hleaps, Array.length_toList]
  constructor
  · rintro ⟨hperiod, _, hpositions, hfollow, hfinite, hstop⟩
    exact ⟨⟨hperiod, hpositions, hfollow, hstop⟩, fun i hi =>
      hfinite i (Array.mem_toList_iff.2 hi)⟩
  · rintro ⟨⟨hperiod, hpositions, hfollow, hstop⟩, hfinite⟩
    exact ⟨hperiod, nofun, hpositions, hfollow, fun i hi => hfinite i (Array.mem_toList_iff.1 hi),
      hstop⟩

/-- Intervals that follow from the cursor on, with positions that increase, are refused only for a
quantity that is not finite. -/
theorem nonFinite_of_checkIntervals {r : Resolution} {previous : Option Int} {cursor : Instant}
    {intervals : List Interval} (hcursor : ¬ cursor.IsLeap)
    (hprevious : ∀ p ∈ previous, ∀ i ∈ intervals, p < i.position)
    (hpositions : intervals.Pairwise (·.position < ·.position))
    (hfollow : FollowFrom r cursor intervals) {defect : SeriesDefect}
    (h : checkIntervals r previous cursor intervals = .error defect) :
    ∃ position, defect = .nonFinite position := by
  induction intervals generalizing previous cursor with
  | nil => cases h
  | cons interval rest ih =>
    obtain ⟨hfirst, hrest⟩ := List.pairwise_cons.1 hpositions
    obtain ⟨⟨hstart, hstop⟩, hbehind⟩ := (followFrom_cons hcursor).1 hfollow
    -- position, start and length of the first interval pass
    have hnone : previous.filter (interval.position ≤ ·) = none := by
      refine Option.filter_eq_none_iff.2 fun p hp => ?_
      rw [decide_eq_true_eq, Int.not_le]
      exact hprevious p hp interval List.mem_cons_self
    have hlength : interval.stop.since interval.start = r.nanos := by
      rw [hstart, hstop]
      exact Instant.since_after hcursor r.seconds
    rw [checkIntervals, hnone] at h
    dsimp only at h
    rw [if_neg (not_not_intro hstart), if_neg (not_not_intro hlength)] at h
    split at h
    · cases h
      exact ⟨interval.position, rfl⟩
    · rw [hstop] at h
      refine ih (Instant.not_isLeap_after hcursor r.seconds) ?_ hrest hbehind h
      rintro p ⟨⟩
      exact hfirst

/-- A series that tiles its period is refused only for a quantity that is not finite. -/
theorem nonFinite_of_checkEvaluable {s : TimeSeries} (hs : s.OutsideLeaps) (htiles : s.Tiles)
    {e : NotEvaluable} (h : s.checkEvaluable = .error e) :
    ∃ position, e.defect = .nonFinite position := by
  have hleaps : ∀ i ∈ s.intervals.toList, ¬ i.stop.IsLeap := fun i hi =>
    (hs.2 i (Array.mem_toList_iff.1 hi)).2
  have hdefect : s.checkTiling = .error e.defect := by
    unfold checkEvaluable at h
    split at h
    · cases h
    · cases h
      assumption
  unfold checkTiling at hdefect
  rw [if_neg (not_not_intro htiles.nonempty)] at hdefect
  rcases bind_eq_error.1 hdefect with hdefect | ⟨stop, hstop, hdefect⟩
  · refine nonFinite_of_checkIntervals hs.1.1 ?_ htiles.positions htiles.follow hdefect
    rintro _ ⟨⟩
  · -- the last interval ends with the period
    obtain ⟨_, _, _, _, hend⟩ := (checkIntervals_eq_ok_iff hs.1.1 hleaps).1 hstop
    rw [Array.length_toList, ← htiles.stop] at hend
    rw [if_neg (not_not_intro hend)] at hdefect
    cases hdefect

/-! ### Closed form -/

/-- A series outside leap seconds can be calculated with exactly if its period is not empty, the
positions increase, all quantities are finite, the interval at every index begins that many steps
after the start of the period and ends one step later, and the period takes as many steps as there
are intervals. -/
theorem checkEvaluable_iff_steps (s : TimeSeries) (hs : s.OutsideLeaps) :
    s.checkEvaluable = .ok () ↔
      s.period.start < s.period.stop ∧
        s.intervals.toList.Pairwise (·.position < ·.position) ∧
        (∀ i ∈ s.intervals, i.quantity.isFinite = true) ∧
        (∀ k i, s.intervals[k]? = some i →
          i.start = s.period.start.after (s.resolution.span k) ∧
            i.stop = s.period.start.after (s.resolution.span (k + 1))) ∧
        s.period.nanos = (s.intervals.size * s.resolution.nanos : Nat) := by
  have hlength : s.period.nanos = (s.intervals.size * s.resolution.nanos : Nat) ↔
      s.period.stop = s.period.start.after (s.resolution.span s.intervals.size) := by
    rw [← Resolution.span_nanos]
    exact Instant.since_eq_iff hs.1.1 hs.1.2
  rw [checkEvaluable_eq_ok_iff hs, hlength]
  constructor
  · rintro ⟨⟨hperiod, hpositions, hfollow, hstop⟩, hfinite⟩
    refine ⟨hperiod, hpositions, hfinite, fun k i hk => hfollow k i ?_, hstop⟩
    rw [Array.getElem?_toList]
    exact hk
  · rintro ⟨hperiod, hpositions, hfinite, hsteps, hstop⟩
    refine ⟨⟨hperiod, hpositions, fun k i hk => hsteps k i ?_, hstop⟩, hfinite⟩
    rw [Array.getElem?_toList] at hk
    exact hk

/-- A series over two hours, from the beginning of 1970. -/
def twoHours : TimeSeries :=
  .ofValues "x" "KWH" .hour ⟨0, 0⟩ [4, 0]

/-- The same period with its first hour only. -/
def twoHoursCut : TimeSeries :=
  { twoHours with intervals := twoHours.intervals.pop }

/-- Two hours are calculated with, so the second interval begins after the first hour.  A single hour
does not take the period of two, and is refused. -/
theorem checkEvaluable_iff_steps_twoHours :
    twoHours.OutsideLeaps ∧ twoHours.checkEvaluable = .ok () ∧
      (∀ i, twoHours.intervals[1]? = some i → i.start = ⟨3600, 0⟩) ∧
        twoHoursCut.OutsideLeaps ∧ twoHoursCut.checkEvaluable ≠ .ok () := by
  have hleaps : twoHours.OutsideLeaps := by decide
  have hleaps' : twoHoursCut.OutsideLeaps := by decide
  have hok : twoHours.checkEvaluable = .ok () := rfl
  refine ⟨hleaps, hok, fun i hi => ?_, hleaps', fun h => ?_⟩
  · obtain ⟨_, _, _, hsteps, _⟩ := (checkEvaluable_iff_steps twoHours hleaps).1 hok
    exact (hsteps 1 i hi).1
  · obtain ⟨_, _, _, _, hlength⟩ := (checkEvaluable_iff_steps twoHoursCut hleaps').1 h
    revert hlength
    decide

end TimeSeries

end EnergyFormula
