import EnergyFormula.Proofs.Evaluation.Buckets
import EnergyFormula.Proofs.Evaluation.Delivery

/-!
# Arithmetic in range

A machine counts in 64 bits, and its durations and its calendar are limited.  Here the boundaries of
a grid, its intervals and the buckets of a series are computed with every result checked
(`Machine.startOf?`, `Machine.intervals?`, `Machine.align?`): nothing comes out where a number does
not fit.  Over a period of the calendar everything does (`Grid.arithmetic_in_range`), because no
step of a grid leads beyond its period.
-/

namespace EnergyFormula

/-! ### The boundaries of a grid -/

namespace Grid

variable {g : Grid} {i : Nat}

/-- The boundaries of a grid lie between the bounds of its period. -/
theorem startOf_mem (hg : g.period.OutsideLeaps) (hi : i ≤ g.length) :
    g.period.start ≤ g.startOf i ∧ g.startOf i ≤ g.period.stop := by
  rw [← startOf_zero, ← startOf_length hg, startOf_le_startOf_iff hg, startOf_le_startOf_iff hg]
  exact ⟨Nat.zero_le i, hi⟩

/-- The steps of a grid in the calendar take no more seconds than the calendar has. -/
theorem span_lt (hg : g.period.OutsideLeaps) (hcalendar : g.period.InCalendar)
    (hi : i ≤ g.length) : g.resolution.span i < 20000000000000 := by
  have hstart := Instant.second_mem_of_inCalendar hcalendar.1
  have hstop := Instant.second_mem_of_inCalendar (inCalendar_startOf hg hcalendar hi)
  rw [startOf, Instant.second_after] at hstop
  omega

end Grid

/-- A series of the calendar has no more intervals than the calendar has seconds. -/
theorem TimeSeries.Tiles.size_lt {s : TimeSeries} (hcalendar : s.period.InCalendar)
    (htiles : s.Tiles) : s.intervals.size < 20000000000000 := by
  have hstart := Instant.second_mem_of_inCalendar hcalendar.1
  have hstop := Instant.second_mem_of_inCalendar hcalendar.2
  have hsize : s.intervals.size ≤ s.resolution.span s.intervals.size :=
    Nat.le_mul_of_pos_left _ s.resolution.positive
  rw [htiles.stop, Instant.second_after] at hstop
  omega

namespace Machine

/-! ### Checked results -/

/-- A number of 64 bits, one of them for the sign. -/
def word? (n : Nat) : Option Nat :=
  if n < 2 ^ 63 then some n else none

/-- A number of seconds that a duration can have. -/
def duration? (seconds : Nat) : Option Nat :=
  if seconds ≤ Resolution.maxSeconds then some seconds else none

/-- An instant of the calendar. -/
def instant? (t : Instant) : Option Instant :=
  if Time.isInCalendar t then some t else none

theorem word?_eq {n : Nat} (h : n < 2 ^ 63) : word? n = some n :=
  if_pos h

theorem duration?_eq {seconds : Nat} (h : seconds ≤ Resolution.maxSeconds) :
    duration? seconds = some seconds :=
  if_pos h

theorem instant?_eq {t : Instant} (h : t.InCalendar) : instant? t = some t :=
  if_pos h

/-- `Resolution.span` with checked results. -/
def span? (r : Resolution) (steps : Nat) : Option Nat := do
  let count ← word? steps
  let seconds ← word? (r.seconds * count)
  duration? seconds

/-- `Grid.startOf` with checked results. -/
def startOf? (g : Grid) (index : Nat) : Option Instant := do
  let seconds ← span? g.resolution index
  instant? (g.period.start.after seconds)

/-- An interval of a grid with its sample. -/
def interval? (g : Grid) (index : Nat) (s : Sample) : Option Interval := do
  let start ← startOf? g index
  let step ← duration? g.resolution.seconds
  let stop ← instant? (start.after step)
  let position ← word? (index + 1)
  return ⟨position, start, stop, s.value, s.quality⟩

/-- `Grid.intervals` with checked results. -/
def intervals? (g : Grid) (samples : Array Sample) : Option (Array Interval) := do
  let intervals ← (samples.toList.mapIdx (interval? g)).mapM id
  return intervals.toArray

/-- `bucketAt` with checked results. -/
def bucket? (series : TimeSeries) (grid : Grid) (ratio index : Nat) :
    Option (Except EvalError Sample) := do
  let start ← startOf? grid index
  let position ← word? (index + 1)
  match series.indexAt? start with
  | none => return .error (.atPosition (.missingInterval series.id start) position)
  | some first =>
    let stop ← word? (first + ratio)
    if stop ≤ series.intervals.size then
      return .ok (bucketSample (series.intervals.extract first stop).toList)
    else return .error (.atPosition (.cutInterval series.id start) position)

/-- `align` with checked results. -/
def align? (series : TimeSeries) (grid : Grid) : Option (Except EvalError (Array Sample)) :=
  match checkAlignment series grid with
  | .error cause => return .error (.of cause)
  | .ok () => do
    let ratio := grid.resolution.seconds / series.resolution.seconds
    let buckets ← ((List.range grid.length).map (bucket? series grid ratio)).mapM id
    return do
      let samples ← buckets.mapM id
      return samples.toArray

/-! ### Grids -/

section Grids

variable {g : Grid} {i : Nat}

/-- What counts intervals or seconds of the calendar fits. -/
theorem span?_eq (hg : g.period.OutsideLeaps) (hcalendar : g.period.InCalendar)
    (hi : i ≤ g.length) : span? g.resolution i = some (g.resolution.span i) := by
  have hlength := Grid.length_lt hg hcalendar
  have hspan : g.resolution.seconds * i < 20000000000000 := Grid.span_lt hg hcalendar hi
  have hmax : 20000000000000 ≤ Resolution.maxSeconds := by decide
  unfold span?
  rw [word?_eq (by omega)]
  dsimp only [Option.bind_eq_bind, Option.bind_some]
  rw [word?_eq (by omega)]
  exact duration?_eq (by omega)

theorem startOf?_eq (hg : g.period.OutsideLeaps) (hcalendar : g.period.InCalendar)
    (hi : i ≤ g.length) : startOf? g i = some (g.startOf i) := by
  unfold startOf?
  rw [span?_eq hg hcalendar hi]
  exact instant?_eq (Grid.inCalendar_startOf hg hcalendar hi)

theorem interval?_eq (hg : g.period.OutsideLeaps) (hcalendar : g.period.InCalendar)
    (hi : i < g.length) (s : Sample) : interval? g i s =
      some (Interval.atIndex g.period.start g.resolution i s.value s.quality) := by
  have hlength := Grid.length_lt hg hcalendar
  have hstop := Grid.inCalendar_startOf hg hcalendar hi
  rw [← Grid.startOf_succ hg] at hstop
  unfold interval?
  rw [startOf?_eq hg hcalendar hi.le, duration?_eq g.resolution.bounded]
  dsimp only [Option.bind_eq_bind, Option.bind_some]
  rw [instant?_eq hstop, word?_eq (by omega)]
  rfl

theorem intervals?_eq (hg : g.period.OutsideLeaps) (hcalendar : g.period.InCalendar)
    {samples : Array Sample} (hsize : samples.size ≤ g.length) :
    intervals? g samples = some (g.intervals samples) := by
  have hrow : samples.toList.mapIdx (interval? g) =
      (g.intervals samples).toList.map some := by
    refine List.ext_getElem (by simp [Grid.intervals]) fun k hk _ => ?_
    rw [List.length_mapIdx, Array.length_toList] at hk
    rw [List.getElem_mapIdx, interval?_eq hg hcalendar (hk.trans_le hsize)]
    simp [Grid.intervals]
  unfold intervals?
  rw [mapM_id_eq_some_iff.2 hrow]
  rfl

end Grids

/-! ### Series on a grid -/

section Series

variable {s : TimeSeries} {g : Grid} {offset ratio i : Nat}

theorem bucket?_eq (h : s.InStep g offset ratio) (hs : s.OutsideLeaps)
    (hsCalendar : s.period.InCalendar) (hg : g.period.OutsideLeaps)
    (hgCalendar : g.period.InCalendar) (htiles : s.Tiles) (hi : i < g.length) :
    bucket? s g ratio i = some (bucketAt s g ratio i) := by
  have hlength := Grid.length_lt hg hgCalendar
  have hsize := htiles.size_lt hsCalendar
  have hfits := h.add_le_size hi
  unfold bucket? bucketAt
  rw [startOf?_eq hg hgCalendar hi.le, word?_eq (n := i + 1) (by omega)]
  dsimp only [Option.bind_eq_bind, Option.bind_some]
  rw [h.indexAt?_startOf hs htiles hi]
  dsimp only
  rw [word?_eq (by omega), Option.bind_some, if_pos hfits, if_pos hfits]
  rfl

theorem align?_eq (hs : s.OutsideLeaps) (hsCalendar : s.period.InCalendar)
    (hg : g.period.OutsideLeaps) (hgCalendar : g.period.InCalendar) :
    align? s g = some (align s g) := by
  unfold align? align
  cases hcheck : checkAlignment s g with
  | error cause => rfl
  | ok =>
    obtain ⟨offset, hstep, htiles⟩ := (checkAlignment_eq_ok_iff.1 hcheck).exists_inStep hs hg
    have hrow : (List.range g.length).map
        (bucket? s g (g.resolution.seconds / s.resolution.seconds)) =
          ((List.range g.length).map
            (bucketAt s g (g.resolution.seconds / s.resolution.seconds))).map some := by
      rw [List.map_map]
      refine List.map_congr_left fun i hi => ?_
      exact bucket?_eq hstep hs hsCalendar hg hgCalendar htiles (List.mem_range.1 hi)
    dsimp only
    rw [mapM_id_eq_some_iff.2 hrow]
    dsimp only [Option.bind_eq_bind, Option.bind_some]
    rw [List.mapM_map]
    rfl

end Series

end Machine

/-! ### Main result -/

/-- The series passes all checks but the last one: it can be calculated with, and its steps divide
those of the grid and are in phase with them. -/
structure TimeSeries.InPhaseWith (s : TimeSeries) (g : Grid) : Prop where
  evaluable : s.checkEvaluable = .ok ()
  finer : s.resolution.seconds ≤ g.resolution.seconds
  divides : s.resolution.divides g.resolution = true
  inPhase : s.resolution.isAligned s.period.start g.period.start = true

namespace TimeSeries.InPhaseWith

variable {s : TimeSeries} {g : Grid}

/-- A series in phase with a grid that it does not cover is refused for that. -/
theorem align_eq_error (h : s.InPhaseWith g) (hcovers : s.period.covers g.period = false) :
    align s g = .error (.of (.shortInput s.id s.period g.period)) := by
  have hcheck : checkAlignment s g = .error (.shortInput s.id s.period g.period) := by
    rw [checkAlignment_eq, h.evaluable, h.divides, h.inPhase, hcovers]
    exact if_neg (Nat.not_lt.2 h.finer)
  rw [align, hcheck]

/-- A series in phase with a grid that it covers has all intervals of every bucket. -/
theorem exists_indexAt? (h : s.InPhaseWith g) (hs : s.OutsideLeaps) (hg : g.period.OutsideLeaps)
    (hcovers : s.period.covers g.period = true) {i : Nat} (hi : i < g.length) :
    ∃ first, s.indexAt? (g.startOf i) = some first ∧
      first + g.resolution.seconds / s.resolution.seconds ≤ s.intervals.size := by
  have haligns : s.AlignsWith g.resolution g.period :=
    ⟨h.evaluable, h.finer, h.divides, h.inPhase, hcovers⟩
  obtain ⟨offset, hstep, htiles⟩ := haligns.exists_inStep hs hg
  exact ⟨_, hstep.indexAt?_startOf hs htiles hi, hstep.add_le_size hi⟩

end TimeSeries.InPhaseWith

/-- The arithmetic of a grid stays in range.  Up to the end of its period the seconds of its steps
have 64 bits and make a duration, and its boundaries lie in the period; so do the ends of its
intervals.  A series that is brought onto it never lacks an interval of a bucket.  With every result
checked, boundaries, intervals and samples are the same. -/
theorem Grid.arithmetic_in_range {period : Period} {resolution : Resolution} {g : Grid}
    (hcalendar : period.InCalendar) (hleaps : period.OutsideLeaps)
    (hbuild : Grid.build period resolution = .ok g) :
    (∀ i ≤ g.length,
      (resolution.seconds * i < 2 ^ 63 ∧ resolution.seconds * i ≤ Resolution.maxSeconds) ∧
        (period.start ≤ g.startOf i ∧ g.startOf i ≤ period.stop) ∧
          Machine.startOf? g i = some (g.startOf i)) ∧
      g.startOf g.length = period.stop ∧
      (∀ i < g.length, (g.startOf i).after resolution.seconds ≤ period.stop) ∧
      (∀ samples : Array Sample, samples.size ≤ g.length →
        Machine.intervals? g samples = some (g.intervals samples)) ∧
      ∀ series : TimeSeries, series.OutsideLeaps → series.period.InCalendar →
        Machine.align? series g = some (align series g) ∧
          (series.InPhaseWith g → series.period.covers period = false →
            align series g = .error (.of (.shortInput series.id series.period period))) ∧
          (series.InPhaseWith g → series.period.covers period = true →
            ∀ i < g.length, ∃ first, series.indexAt? (g.startOf i) = some first ∧
              first + resolution.seconds / series.resolution.seconds ≤
                series.intervals.size) := by
  obtain ⟨rfl, rfl⟩ := Grid.build_eq_ok_iff.1 hbuild
  refine ⟨fun i hi => ⟨?_, startOf_mem hleaps hi, Machine.startOf?_eq hleaps hcalendar hi⟩,
    startOf_length hleaps, fun i hi => ?_,
    fun samples hsize => Machine.intervals?_eq hleaps hcalendar hsize,
    fun series hs hsCalendar => ⟨Machine.align?_eq hs hsCalendar hleaps hcalendar, ?_, ?_⟩⟩
  · have hspan : g.resolution.seconds * i < 20000000000000 := span_lt hleaps hcalendar hi
    have hmax : 20000000000000 ≤ Resolution.maxSeconds := by decide
    omega
  · rw [startOf_succ hleaps]
    exact (startOf_mem hleaps hi).2
  · exact fun hphase hcovers => hphase.align_eq_error hcovers
  · exact fun hphase hcovers i hi => hphase.exists_indexAt? hs hleaps hcovers hi

/-- A second. -/
def Resolution.second : Resolution :=
  ⟨1, by decide, by decide⟩

/-- The seconds of seventy years from the beginning of June 2024 on. -/
def Grid.seventyYears : Grid :=
  ⟨⟨⟨1717200000, 0⟩, ⟨3926188800, 0⟩⟩, .second, 2208988800, by decide, by decide⟩

/-- The seconds of seventy years are more than 31 bits can count, and their starts follow one
another up to the end.  Over two hours the half hours of every bucket are there. -/
theorem Grid.arithmetic_in_range_seventyYears :
    seventyYears.period.InCalendar ∧ seventyYears.period.OutsideLeaps ∧
      Grid.build seventyYears.period .second = .ok seventyYears ∧
      Machine.startOf? seventyYears (2 ^ 31 + 1) = some (seventyYears.startOf (2 ^ 31 + 1)) ∧
      twoHours.period.InCalendar ∧ twoHours.period.OutsideLeaps ∧
      Grid.build twoHours.period .hour = .ok twoHours ∧
      TimeSeries.halfHours.OutsideLeaps ∧ TimeSeries.halfHours.period.InCalendar ∧
      TimeSeries.halfHours.InPhaseWith twoHours ∧
      TimeSeries.halfHours.period.covers twoHours.period = true ∧
      ∃ first, TimeSeries.halfHours.indexAt? (twoHours.startOf 1) = some first ∧
        first + 2 ≤ TimeSeries.halfHours.intervals.size := by
  have hcalendar : seventyYears.period.InCalendar :=
    ⟨by decide +kernel, by decide +kernel⟩
  have hleaps : seventyYears.period.OutsideLeaps := by decide
  have hbuild : Grid.build seventyYears.period .second = .ok seventyYears :=
    build_eq_ok_iff.2 ⟨rfl, rfl⟩
  have hcalendar' : twoHours.period.InCalendar :=
    ⟨by decide +kernel, by decide +kernel⟩
  have hleaps' : twoHours.period.OutsideLeaps := by decide
  have hbuild' : Grid.build twoHours.period .hour = .ok twoHours := build_eq_ok_iff.2 ⟨rfl, rfl⟩
  have hs : TimeSeries.halfHours.OutsideLeaps := ⟨by decide, by decide +kernel⟩
  have hsCalendar : TimeSeries.halfHours.period.InCalendar :=
    ⟨by decide +kernel, by decide +kernel⟩
  have hphase : TimeSeries.halfHours.InPhaseWith twoHours :=
    ⟨rfl, by decide, by decide, by decide⟩
  have hcovers : TimeSeries.halfHours.period.covers twoHours.period = true := by decide
  obtain ⟨hstarts, _⟩ := arithmetic_in_range hcalendar hleaps hbuild
  obtain ⟨_, _, _, _, hseries⟩ := arithmetic_in_range hcalendar' hleaps' hbuild'
  obtain ⟨_, _, hbuckets⟩ := hseries _ hs hsCalendar
  obtain ⟨_, _, hstart⟩ := hstarts (2 ^ 31 + 1) (by decide)
  exact ⟨hcalendar, hleaps, hbuild, hstart, hcalendar', hleaps', hbuild', hs, hsCalendar, hphase,
    hcovers, hbuckets hphase hcovers 1 (by decide)⟩

end EnergyFormula
