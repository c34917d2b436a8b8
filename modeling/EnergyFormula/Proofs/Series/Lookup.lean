import EnergyFormula.Proofs.Series.Tiling

/-!
# Looking up an instant in a series

A series that can be calculated with has been checked interval by interval, but an interval is looked
up by the time that has passed since the start of the period (`TimeSeries.indexAt?`).  The time
between two instants is the difference of their epoch times, and a second more or less if one of them
lies in a leap second and has the earlier time of day (`Instant.since_eq_epochNanos`).  So the times
between instants do not add up across a leap second: the check counts it from each bound to the next
one (`TimeSeries.leapsBefore`), the lookup only between the start of the period and the instant.

`TimeSeries.lookup_of_evaluable` says what is found.  Outside leap seconds it is the interval that
starts at the instant; behind a leap second an interval need not be found at its start
(`TimeSeries.exists_lookup_astray`).
-/

namespace EnergyFormula

open Time

namespace Instant

variable {a b : Instant}

/-- Nanoseconds from the beginning of 1970 without leap seconds; those of a leap second are counted
on from the second before it. -/
def epochNanos (t : Instant) : Int :=
  t.second * nanosPerSecond + t.nano

theorem since_eq_epochNanos (a b : Instant) :
    a.since b = a.epochNanos - b.epochNanos + a.leapBetween b * nanosPerSecond := by
  unfold since epochNanos nanosPerSecond
  omega

/-- Outside leap seconds an instant is told by its epoch time. -/
theorem eq_of_epochNanos_eq (ha : ¬ a.IsLeap) (hb : ¬ b.IsLeap)
    (h : a.epochNanos = b.epochNanos) : a = b := by
  have ha := nano_lt ha
  have hb := nano_lt hb
  simp only [epochNanos, nanosPerSecond] at h ha hb
  exact ext (by omega) (by omega)

theorem leapBetween_eq_zero (ha : ¬ a.IsLeap) (hb : ¬ b.IsLeap) : a.leapBetween b = 0 := by
  simp [leapBetween, ha, hb]

/-- A second that passes leads to a later instant. -/
theorem lt_of_le_since (h : (nanosPerSecond : Int) ≤ a.since b) : b < a := by
  have ha := a.nano_lt_two_seconds
  have hb := b.nano_lt_two_seconds
  have hday : a.second = b.second → a.secondOfDay = b.secondOfDay := by
    intro heq
    rw [secondOfDay, secondOfDay, heq]
  unfold since leapBetween IsLeap at h
  rw [lt_def]
  unfold rank
  unfold nanosPerSecond at *
  -- of two instants with a leap second between them one lies in it, and its nanoseconds decide
  split at h
  · omega
  · split at h <;> omega

end Instant

/-! ### The way through the intervals -/

/-- The leap seconds that are passed on the way through intervals, from start to end of each. -/
def leapsThrough : List Interval → Int
  | [] => 0
  | i :: rest => i.stop.leapBetween i.start + leapsThrough rest

theorem leapsThrough_eq_zero {intervals : List Interval}
    (h : ∀ i ∈ intervals, ¬ i.start.IsLeap ∧ ¬ i.stop.IsLeap) : leapsThrough intervals = 0 := by
  induction intervals with
  | nil => rfl
  | cons i rest ih =>
    obtain ⟨hi, hrest⟩ := List.forall_mem_cons.1 h
    rw [leapsThrough, ih hrest, Instant.leapBetween_eq_zero hi.2 hi.1]
    rfl

namespace TimeSeries

section Pass

variable {r : Resolution} {previous : Option Int} {cursor stop : Instant}
  {intervals : List Interval}

/-- Up to the start of an interval the steps pass, less the leap seconds on the way. -/
theorem epochNanos_of_checkIntervals (h : checkIntervals r previous cursor intervals = .ok stop)
    {k : Nat} {i : Interval} (hk : intervals[k]? = some i) :
    i.start.epochNanos = cursor.epochNanos + (k * r.nanos : Nat) -
      leapsThrough (intervals.take k) * nanosPerSecond := by
  induction intervals generalizing previous cursor k with
  | nil => cases hk
  | cons interval rest ih =>
    obtain ⟨_, rfl, hlength, _, hrest⟩ := checkIntervals_cons_eq_ok_iff.1 h
    cases k with
    | zero =>
      cases hk
      simp [leapsThrough]
    | succ k =>
      have hbehind := ih hrest hk
      rw [Instant.since_eq_epochNanos] at hlength
      rw [hbehind, List.take_succ_cons, leapsThrough, Nat.succ_mul]
      unfold nanosPerSecond at *
      omega

/-- The pass goes on in time: the intervals begin at the cursor or behind it, and before the end. -/
theorem le_start_of_checkIntervals (h : checkIntervals r previous cursor intervals = .ok stop) :
    cursor ≤ stop ∧ ∀ i ∈ intervals, cursor ≤ i.start ∧ i.start < stop := by
  induction intervals generalizing previous cursor with
  | nil =>
    cases h
    exact ⟨Int.le_refl _, List.forall_mem_nil _⟩
  | cons interval rest ih =>
    obtain ⟨_, rfl, hlength, _, hrest⟩ := checkIntervals_cons_eq_ok_iff.1 h
    obtain ⟨hle, hmem⟩ := ih hrest
    have hstep : interval.start < interval.stop := by
      refine Instant.lt_of_le_since ?_
      have hpos := r.positive
      rw [hlength, Resolution.nanos]
      exact_mod_cast Nat.le_mul_of_pos_left nanosPerSecond hpos
    have hlast : interval.start < stop := Int.lt_of_lt_of_le hstep hle
    refine ⟨Int.le_of_lt hlast, List.forall_mem_cons.2 ⟨⟨Int.le_refl _, hlast⟩, fun i hi => ?_⟩⟩
    obtain ⟨hcursor, hend⟩ := hmem i hi
    exact ⟨Int.le_of_lt (Int.lt_of_lt_of_le hstep hcursor), hend⟩

end Pass

/-! ### Main result -/

/-- The leap seconds that are passed on the way through the intervals ahead of an index. -/
def leapsBefore (s : TimeSeries) (k : Nat) : Int :=
  leapsThrough (s.intervals.toList.take k)

theorem leapsBefore_eq_zero {s : TimeSeries} (hs : s.OutsideLeaps) (k : Nat) :
    s.leapsBefore k = 0 :=
  leapsThrough_eq_zero fun i hi => hs.2 i (Array.mem_toList_iff.1 (List.mem_of_mem_take hi))

section Lookup

variable {s : TimeSeries} {k : Nat} {i : Interval} {t : Instant}

theorem contains_start (h : s.checkEvaluable = .ok ()) (hi : i ∈ s.intervals) :
    s.period.contains i.start = true := by
  rw [checkEvaluable_eq_ok_iff_checkTiling, checkTiling_eq_ok_iff] at h
  obtain ⟨_, hmem⟩ := le_start_of_checkIntervals h.2
  obtain ⟨hstart, hstop⟩ := hmem i (Array.mem_toList_iff.2 hi)
  rw [Period.contains, Bool.and_eq_true, decide_eq_true_eq, decide_eq_true_eq]
  exact ⟨hstart, hstop⟩

/-- The steps to an instant are counted as those to an interval exactly if the instants differ by as
many seconds as their counts of leap seconds. -/
theorem stepsBetween?_eq_some_iff_leaps (h : s.checkEvaluable = .ok ())
    (hk : s.intervals[k]? = some i) :
    s.resolution.stepsBetween? s.period.start t = some k ↔
      t.epochNanos - i.start.epochNanos =
        (s.leapsBefore k - t.leapBetween s.period.start) * nanosPerSecond := by
  rw [checkEvaluable_eq_ok_iff_checkTiling, checkTiling_eq_ok_iff] at h
  rw [← Array.getElem?_toList] at hk
  rw [Resolution.stepsBetween?_eq_some_iff_since, Instant.since_eq_epochNanos,
    epochNanos_of_checkIntervals h.2 hk]
  unfold leapsBefore nanosPerSecond
  omega

/-- In a series that can be calculated with an instant of the period is looked up as the interval at
an index exactly if it lies behind the start of the interval by as many seconds as there are leap
seconds on the way through the intervals ahead, less the one that is passed from the start of the
period to the time of day of the instant.  So an interval is found at its start exactly if these two
counts agree.  If no instant of the series lies in a leap second, then an instant outside leap seconds
is looked up as the interval that starts there, and any other one is not found. -/
theorem lookup_of_evaluable (s : TimeSeries) (h : s.checkEvaluable = .ok ()) :
    (∀ t k, s.indexAt? t = some k ↔ s.period.contains t = true ∧ ∃ i, s.intervals[k]? = some i ∧
      t.epochNanos - i.start.epochNanos =
        (s.leapsBefore k - t.leapBetween s.period.start) * nanosPerSecond) ∧
    (∀ k i, s.intervals[k]? = some i →
      (s.indexAt? i.start = some k ↔ i.start.leapBetween s.period.start = s.leapsBefore k)) ∧
    (s.OutsideLeaps → ∀ t, ¬ t.IsLeap → ∀ k,
      s.indexAt? t = some k ↔ ∃ i, s.intervals[k]? = some i ∧ i.start = t) := by
  have hlookup : ∀ t k, s.indexAt? t = some k ↔ s.period.contains t = true ∧
      ∃ i, s.intervals[k]? = some i ∧ t.epochNanos - i.start.epochNanos =
        (s.leapsBefore k - t.leapBetween s.period.start) * nanosPerSecond := by
    intro t k
    rw [indexAt?_eq_some_iff]
    refine and_congr_right fun _ => ?_
    constructor
    · rintro ⟨hsteps, hlt⟩
      have hk : s.intervals[k]? = some s.intervals[k] := Array.getElem?_eq_getElem hlt
      exact ⟨_, hk, (stepsBetween?_eq_some_iff_leaps h hk).1 hsteps⟩
    · rintro ⟨i, hk, hsteps⟩
      exact ⟨(stepsBetween?_eq_some_iff_leaps h hk).2 hsteps, (Array.getElem?_eq_some_iff.1 hk).1⟩
  have hstarts : ∀ k i, s.intervals[k]? = some i →
      (s.indexAt? i.start = some k ↔ i.start.leapBetween s.period.start = s.leapsBefore k) := by
    intro k i hk
    have hcontains := contains_start h (Array.mem_of_getElem? hk)
    have hlt := (Array.getElem?_eq_some_iff.1 hk).1
    rw [indexAt?_eq_some_iff, stepsBetween?_eq_some_iff_leaps h hk, and_iff_right hcontains,
      and_iff_left hlt]
    unfold nanosPerSecond
    omega
  refine ⟨hlookup, hstarts, fun hleaps t ht k => ?_⟩
  -- outside leap seconds both counts are zero
  have hzero := leapsBefore_eq_zero hleaps k
  constructor
  · intro hfound
    obtain ⟨_, i, hk, hbehind⟩ := (hlookup t k).1 hfound
    have hi := (hleaps.2 i (Array.mem_of_getElem? hk)).1
    rw [hzero, Instant.leapBetween_eq_zero ht hleaps.1.1] at hbehind
    exact ⟨i, hk, (Instant.eq_of_epochNanos_eq ht hi (by omega)).symm⟩
  · rintro ⟨i, hk, rfl⟩
    rw [hstarts k i hk, hzero]
    exact Instant.leapBetween_eq_zero ht hleaps.1.1

end Lookup

/-! ### Across a leap second -/

/-- The step of one minute. -/
def minute : Resolution :=
  ⟨60, by decide, by decide⟩

/-- Three minutes on the last day of 2016, as a reader delivers them if a bound is told as `10:59:60`:
they begin at `10:59:00`, `10:59:60` and `11:00:59`, and end at `11:01:59`. -/
def acrossLeap : TimeSeries :=
  { twoHours with
    resolution := minute
    period := ⟨⟨1483181940, 0⟩, ⟨1483182119, 0⟩⟩
    intervals := #[⟨1, ⟨1483181940, 0⟩, ⟨1483181999, 1000000000⟩, 4, .validated⟩,
      ⟨2, ⟨1483181999, 1000000000⟩, ⟨1483182059, 0⟩, 5, .validated⟩,
      ⟨3, ⟨1483182059, 0⟩, ⟨1483182119, 0⟩, 6, .validated⟩] }

/-- In the three minutes the second interval is found at its start and the third one is not, since the
leap second is passed on the way to the third one only when it is gone interval by interval.  In two
hours outside leap seconds the second interval is found at its start. -/
theorem lookup_of_evaluable_acrossLeap :
    (acrossLeap.checkEvaluable = .ok () ∧
      acrossLeap.indexAt? ⟨1483181999, 1000000000⟩ = some 1 ∧
        acrossLeap.leapsBefore 2 = 1 ∧ acrossLeap.indexAt? ⟨1483182059, 0⟩ ≠ some 2) ∧
      twoHours.checkEvaluable = .ok () ∧ twoHours.OutsideLeaps ∧ ¬ (Instant.mk 3600 0).IsLeap ∧
        twoHours.indexAt? ⟨3600, 0⟩ = some 1 := by
  have hok : acrossLeap.checkEvaluable = .ok () := rfl
  have hok' : twoHours.checkEvaluable = .ok () := rfl
  have hleaps : twoHours.OutsideLeaps := by decide
  have hbetween : (Instant.mk 1483182059 0).leapBetween acrossLeap.period.start = 0 := by decide
  have hbefore : acrossLeap.leapsBefore 2 = 1 := by decide
  obtain ⟨_, hstarts, _⟩ := lookup_of_evaluable acrossLeap hok
  obtain ⟨_, _, houtside⟩ := lookup_of_evaluable twoHours hok'
  refine ⟨⟨hok, (hstarts 1 _ rfl).2 (by decide), hbefore, fun h => ?_⟩, hok', hleaps, by decide,
    (houtside hleaps _ (by decide) 1).2 ⟨_, rfl, rfl⟩⟩
  have hcount : (Instant.mk 1483182059 0).leapBetween acrossLeap.period.start = _ :=
    (hstarts 2 _ rfl).1 h
  rw [hbetween, hbefore] at hcount
  cases hcount

/-- A series that can be calculated with: its third interval is not found at its start, and the second
one is found where no interval starts.  In two
hours outside leap seconds the second interval is found in the leap second at the end of the first
hour as well. -/
theorem exists_lookup_astray :
    (∃ s : TimeSeries, s.checkEvaluable = .ok () ∧
      (∃ k i, s.intervals[k]? = some i ∧ s.indexAt? i.start ≠ some k) ∧
        ∃ t : Instant, (∀ i ∈ s.intervals, i.start ≠ t) ∧ s.indexAt? t ≠ none) ∧
      ∃ s : TimeSeries, s.checkEvaluable = .ok () ∧ s.OutsideLeaps ∧
        ∃ t : Instant, (∀ i ∈ s.intervals, i.start ≠ t) ∧ s.indexAt? t ≠ none := by
  refine ⟨⟨acrossLeap, rfl, ⟨2, _, rfl, by decide⟩, ⟨1483182000, 0⟩, ?_⟩,
    twoHours, rfl, by decide, ⟨3599, 1000000000⟩, ?_⟩
  · decide
  · decide

end TimeSeries

end EnergyFormula
