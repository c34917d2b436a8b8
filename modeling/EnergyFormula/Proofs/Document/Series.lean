import EnergyFormula.Document.Series
import EnergyFormula.Proofs.Document.Given
import EnergyFormula.Proofs.Number.ReadBack
import EnergyFormula.Proofs.Series.Tiling
import EnergyFormula.Proofs.Time.Duration
import EnergyFormula.Proofs.Time.Relaxed

/-!
# Series in documents

A series of the calendar is written in a document from which it is read back if it is finite
(`TimeSeries.read_write`).  A quantity that is not finite is written too, but the document is
refused for it (`TimeSeries.read_write_eq_error`).  Every series that was read from a document is of
the calendar and finite, so it is read back (`TimeSeries.readsBack`).
-/

namespace EnergyFormula

open Document

/-! ### Values -/

namespace Document

theorem instant_ofInstant {t : Instant} (h : t.InCalendar) : instant (ofInstant t) = .ok t := by
  unfold ofInstant instant
  dsimp only
  rw [Instant.parseRelaxed?_documentText h]
  rfl

theorem resolution_text (r : Resolution) : resolution (.string r.text) = .ok r := by
  unfold resolution
  dsimp only
  rw [Resolution.parse_text]
  rfl

theorem named_text (q : IntervalQuality) :
    named IntervalQuality.ofText? (.string q.text) = .ok q := by
  unfold named
  dsimp only
  rw [IntervalQuality.ofText?_text]
  rfl

theorem integer_of_mem {n : Int} (h : -9223372036854775808 ≤ n ∧ n ≤ 9223372036854775807) :
    integer (.integer n) = .ok n :=
  if_pos h

theorem flexible_plain {x : Float} (hx : x.isFinite = true) :
    flexible (.string (Number.plain x)) = .ok x := by
  unfold flexible
  dsimp only
  rw [Number.readTrimmed?_plain hx]
  exact if_pos hx

/-- What is not finite is written in words, which are read as such and then refused. -/
theorem flexible_plain_of_not_isFinite {x : Float} (hx : x.isFinite = false) :
    ∃ y, flexible (.string (Number.plain x)) = .error (.notFinite y) := by
  obtain ⟨y, hread, hy⟩ := Number.readTrimmed?_plain_of_not_isFinite hx
  refine ⟨y, ?_⟩
  unfold flexible
  dsimp only
  rw [hread]
  exact if_neg (Bool.eq_false_iff.1 hy)

end Document

/-! ### Periods and intervals -/

/-- The bounds of the period lie in the calendar. -/
def Period.InCalendar (p : Period) : Prop :=
  p.start.InCalendar ∧ p.stop.InCalendar

theorem Period.read_write {p : Period} (h : p.InCalendar) : Period.read p.write = .ok p := by
  have hstart : valuesAt ["start"] [("start", ofInstant p.start), ("end", ofInstant p.stop)] =
      [ofInstant p.start] := by simp [valuesAt]
  have hstop : valuesAt ["end"] [("start", ofInstant p.start), ("end", ofInstant p.stop)] =
      [ofInstant p.stop] := by simp [valuesAt]
  have hfirst := Record.gives_required hstart (instant_ofInstant h.1)
  have hlast := Record.gives_required hstop (instant_ofInstant h.2)
  exact ((hfirst.map Period.mk).seq hlast).read

namespace Interval

/-- The bounds of the interval lie in the calendar, and its position has 64 bits. -/
structure InCalendar (i : Interval) : Prop where
  start : i.start.InCalendar
  stop : i.stop.InCalendar
  position : -9223372036854775808 ≤ i.position ∧ i.position ≤ 9223372036854775807

variable {i : Interval}

/-- Position and bounds are read back. -/
theorem gives_bounds (h : i.InCalendar) :
    (Interval.mk <$> .required ["position"] integer <*> .required ["start"] instant
      <*> .required ["end"] instant : Record i.write (Float → IntervalQuality → Interval)).Gives
        (Interval.mk i.position i.start i.stop) := by
  have hposition : (Record.required ["position"] integer : Record i.write Int).Gives i.position :=
    Record.gives_required (by simp [valuesAt]) (integer_of_mem h.position)
  have hstart : (Record.required ["start"] instant : Record i.write Instant).Gives i.start :=
    Record.gives_required (by simp [valuesAt]) (instant_ofInstant h.start)
  have hstop : (Record.required ["end"] instant : Record i.write Instant).Gives i.stop :=
    Record.gives_required (by simp [valuesAt]) (instant_ofInstant h.stop)
  exact ((hposition.map Interval.mk).seq hstart).seq hstop

theorem gives_quality (i : Interval) :
    (Record.defaulted ["quality"] .validated (named IntervalQuality.ofText?) :
      Record i.write IntervalQuality).Gives i.quality :=
  Record.gives_defaulted (by simp [valuesAt]) (named_text i.quality)

theorem read_write (h : i.InCalendar) (hfinite : i.quantity.isFinite = true) :
    Interval.read i.write = .ok i := by
  have hquantity : (Record.required ["quantity"] flexible : Record i.write Float).Gives
      i.quantity := Record.gives_required (by simp [valuesAt]) (flexible_plain hfinite)
  exact (((gives_bounds h).seq hquantity).seq (gives_quality i)).read

theorem read_write_eq_error (h : i.InCalendar) (hinfinite : i.quantity.isFinite = false) :
    ∃ y, Interval.read i.write = .error (.notFinite y) := by
  obtain ⟨y, hy⟩ := flexible_plain_of_not_isFinite hinfinite
  have hquantity : (Record.required ["quantity"] flexible : Record i.write Float).Refused
      (.notFinite y) := Record.refused_required (by simp [valuesAt]) hy
  exact ⟨y, (((gives_bounds h).seq_refused hquantity).seq (gives_quality i)).read⟩

/-- Finite intervals are read back one by one. -/
theorem list_write {intervals : List Interval} (h : ∀ i ∈ intervals, i.InCalendar)
    (hfinite : ∀ i ∈ intervals, i.quantity.isFinite = true) :
    list Interval.read (array Interval.write intervals) = .ok intervals := by
  unfold array
  rw [list_array, mapM_eq_ok_iff, List.forall₂_map_left_iff, List.forall₂_same]
  exact fun i hi => read_write (h i hi) (hfinite i hi)

/-- Of several intervals that are not finite the first one is refused. -/
theorem list_write_eq_error {intervals : List Interval} (h : ∀ i ∈ intervals, i.InCalendar)
    (hinfinite : ¬ ∀ i ∈ intervals, i.quantity.isFinite = true) :
    ∃ y, list Interval.read (array Interval.write intervals) = .error (.notFinite y) := by
  unfold array
  rw [list_array]
  induction intervals with
  | nil => exact absurd (List.forall_mem_nil _) hinfinite
  | cons i rest ih =>
    obtain ⟨hi, hrest⟩ := List.forall_mem_cons.1 h
    rw [List.map_cons, List.mapM_cons]
    by_cases hquantity : i.quantity.isFinite = true
    · have hinfinite : ¬ ∀ j ∈ rest, j.quantity.isFinite = true :=
        fun hall => hinfinite (List.forall_mem_cons.2 ⟨hquantity, hall⟩)
      obtain ⟨y, hy⟩ := ih hrest hinfinite
      refine ⟨y, ?_⟩
      rw [read_write hi hquantity, ok_bind, hy]
      rfl
    · obtain ⟨y, hy⟩ := read_write_eq_error hi (Bool.eq_false_iff.2 hquantity)
      refine ⟨y, ?_⟩
      rw [hy]
      rfl

end Interval

/-! ### Series -/

namespace TimeSeries

/-- The instants of the series lie in the calendar, and its positions have 64 bits. -/
structure InCalendar (s : TimeSeries) : Prop where
  period : s.period.InCalendar
  intervals : ∀ i ∈ s.intervals, i.InCalendar

variable {s : TimeSeries}

/-- Everything before the intervals is read back. -/
theorem gives_head (h : s.InCalendar) :
    (TimeSeries.mk <$> .required ["timeSeriesId"] string
      <*> .optional ["marketLocationId"] string
      <*> .optional ["networkLocationId"] string
      <*> .optional ["meterLocationId"] string
      <*> .optional ["measurementType"] string
      <*> .required ["unit"] string
      <*> .required ["resolution"] Document.resolution
      <*> .required ["period"] Period.read : Record s.write (Array Interval → TimeSeries)).Gives
        (TimeSeries.mk s.id s.marketLocationId s.networkLocationId s.meterLocationId
          s.measurementType s.unit s.resolution s.period) := by
  have hid : (Record.required ["timeSeriesId"] string : Record s.write String).Gives s.id :=
    Record.gives_required (valuesAt_written (some (.string s.id)) (by simp)) rfl
  have hmarket : (Record.optional ["marketLocationId"] string : Record s.write _).Gives
      s.marketLocationId := Record.gives_text (valuesAt_written _ (by simp))
  have hnetwork : (Record.optional ["networkLocationId"] string : Record s.write _).Gives
      s.networkLocationId := Record.gives_text (valuesAt_written _ (by simp))
  have hmeter : (Record.optional ["meterLocationId"] string : Record s.write _).Gives
      s.meterLocationId := Record.gives_text (valuesAt_written _ (by simp))
  have htype : (Record.optional ["measurementType"] string : Record s.write _).Gives
      s.measurementType := Record.gives_text (valuesAt_written _ (by simp))
  have hunit : (Record.required ["unit"] string : Record s.write String).Gives s.unit :=
    Record.gives_required (valuesAt_written (some (.string s.unit)) (by simp)) rfl
  have hresolution : (Record.required ["resolution"] Document.resolution :
      Record s.write Resolution).Gives s.resolution :=
    Record.gives_required (valuesAt_written (some (.string s.resolution.text)) (by simp))
      (resolution_text s.resolution)
  have hperiod : (Record.required ["period"] Period.read : Record s.write Period).Gives
      s.period :=
    Record.gives_required (valuesAt_written (some s.period.write) (by simp))
      (Period.read_write h.period)
  exact (((((((hid.map TimeSeries.mk).seq hmarket).seq hnetwork).seq hmeter).seq htype).seq
    hunit).seq hresolution).seq hperiod

/-- A finite series is read back from its document. -/
theorem read_write (h : s.InCalendar) (hfinite : s.IsFinite) :
    TimeSeries.read s.write = .ok s := by
  have hlist : list Interval.read (array Interval.write s.intervals.toList) =
      .ok s.intervals.toList :=
    Interval.list_write (fun i hi => h.intervals i (Array.mem_toList_iff.1 hi))
      fun i hi => hfinite i (Array.mem_toList_iff.1 hi)
  have hrow : (list Interval.read (array Interval.write s.intervals.toList)).map List.toArray =
      .ok s.intervals := by
    rw [hlist]
    rfl
  have hintervals : (Record.defaulted ["intervals"] #[] fun row =>
      (list Interval.read row).map List.toArray : Record s.write (Array Interval)).Gives
        s.intervals :=
    Record.gives_defaulted
      (valuesAt_written (some (array Interval.write s.intervals.toList)) (by simp)) hrow
  exact ((gives_head h).seq hintervals).read

/-- The document of a series that is not finite is refused. -/
theorem read_write_eq_error (h : s.InCalendar) (hinfinite : ¬ s.IsFinite) :
    ∃ y, TimeSeries.read s.write = .error (.notFinite y) := by
  have hinfinite : ¬ ∀ i ∈ s.intervals.toList, i.quantity.isFinite = true :=
    fun hall => hinfinite fun i hi => hall i (Array.mem_toList_iff.2 hi)
  obtain ⟨y, hlist⟩ :=
    Interval.list_write_eq_error (fun i hi => h.intervals i (Array.mem_toList_iff.1 hi)) hinfinite
  have hrow : (list Interval.read (array Interval.write s.intervals.toList)).map List.toArray =
      .error (.notFinite y) := by
    rw [hlist]
    rfl
  have hintervals : (Record.defaulted ["intervals"] #[] fun row =>
      (list Interval.read row).map List.toArray : Record s.write (Array Interval)).Refused
        (.notFinite y) :=
    Record.refused_defaulted
      (valuesAt_written (some (array Interval.write s.intervals.toList)) (by simp)) hrow
  exact ⟨y, ((gives_head h).seq_refused hintervals).read⟩

end TimeSeries

/-! ### What is read -/

namespace Document

theorem inCalendar_of_instant {v : Json} {t : Instant} (h : instant v = .ok t) : t.InCalendar := by
  cases v with
  | string s =>
    unfold instant at h
    dsimp only at h
    cases hparse : Instant.parseRelaxed? s with
    | none =>
      rw [hparse] at h
      cases h
    | some u =>
      rw [hparse] at h
      cases h
      exact Instant.inCalendar_of_parseRelaxed? hparse
  | _ => cases h

theorem isFinite_of_finite {x y : Float} (h : finite x = .ok y) : y.isFinite = true := by
  unfold finite at h
  split at h
  · rename_i hfinite
    cases h
    exact hfinite
  · cases h

theorem isFinite_of_flexible {v : Json} {x : Float} (h : flexible v = .ok x) :
    x.isFinite = true := by
  unfold flexible at h
  split at h
  · split at h
    · exact isFinite_of_finite h
    · cases h
  · obtain ⟨_, _, h⟩ := bind_eq_ok.1 h
    exact isFinite_of_finite h

end Document

theorem Period.inCalendar_of_read {v : Json} {p : Period} (h : Period.read v = .ok p) :
    p.InCalendar := by
  obtain ⟨_, _, rfl, h, hstop⟩ := (Record.canGive_of_read h).of_seq
  obtain ⟨_, rfl, hstart⟩ := h.of_map
  obtain ⟨_, hstart⟩ := hstart.of_required
  obtain ⟨_, hstop⟩ := hstop.of_required
  exact ⟨inCalendar_of_instant hstart, inCalendar_of_instant hstop⟩

theorem Interval.inCalendar_of_read {v : Json} {i : Interval} (h : Interval.read v = .ok i) :
    i.InCalendar ∧ i.quantity.isFinite = true := by
  obtain ⟨_, _, rfl, h, _⟩ := (Record.canGive_of_read h).of_seq
  obtain ⟨_, _, rfl, h, hquantity⟩ := h.of_seq
  obtain ⟨_, _, rfl, h, hstop⟩ := h.of_seq
  obtain ⟨_, _, rfl, h, hstart⟩ := h.of_seq
  obtain ⟨_, rfl, hposition⟩ := h.of_map
  obtain ⟨_, hposition⟩ := hposition.of_required
  obtain ⟨_, hstart⟩ := hstart.of_required
  obtain ⟨_, hstop⟩ := hstop.of_required
  obtain ⟨_, hquantity⟩ := hquantity.of_required
  exact ⟨⟨inCalendar_of_instant hstart, inCalendar_of_instant hstop, integer_eq_ok hposition⟩,
    isFinite_of_flexible hquantity⟩

theorem TimeSeries.inCalendar_of_read {v : Json} {s : TimeSeries} (h : TimeSeries.read v = .ok s) :
    s.InCalendar ∧ s.IsFinite := by
  obtain ⟨_, intervals, rfl, h, hintervals⟩ := (Record.canGive_of_read h).of_seq
  obtain ⟨_, _, rfl, h, hperiod⟩ := h.of_seq
  obtain ⟨_, _, rfl, h, _⟩ := h.of_seq
  obtain ⟨_, _, rfl, h, _⟩ := h.of_seq
  obtain ⟨_, _, rfl, h, _⟩ := h.of_seq
  obtain ⟨_, _, rfl, h, _⟩ := h.of_seq
  obtain ⟨_, _, rfl, h, _⟩ := h.of_seq
  obtain ⟨_, _, rfl, h, _⟩ := h.of_seq
  obtain ⟨_, rfl, _⟩ := h.of_map
  obtain ⟨_, hperiod⟩ := hperiod.of_required
  have hall : ∀ i ∈ intervals, i.InCalendar ∧ i.quantity.isFinite = true := by
    intro i hi
    rcases Record.CanGive.of_field hintervals with habsent | ⟨_, hrow⟩
    · cases habsent
      exact absurd hi (Array.not_mem_empty i)
    · obtain ⟨row, hlist, rfl⟩ := map_eq_ok_iff.1 hrow
      obtain ⟨_, hitem⟩ := list_eq_ok hlist i (List.mem_toArray.1 hi)
      exact Interval.inCalendar_of_read hitem
  exact ⟨⟨Period.inCalendar_of_read hperiod, fun i hi => (hall i hi).1⟩, fun i hi => (hall i hi).2⟩

theorem Period.readsBack (v : Json) : ReadsBack Period.read Period.write v :=
  fun _ h => Period.read_write (Period.inCalendar_of_read h)

/-- A series that was read is read back. -/
theorem TimeSeries.readsBack (v : Json) : ReadsBack TimeSeries.read TimeSeries.write v := by
  intro s h
  obtain ⟨hcalendar, hfinite⟩ := TimeSeries.inCalendar_of_read h
  exact TimeSeries.read_write hcalendar hfinite

theorem OutputSpec.readsBack (v : Json) : ReadsBack OutputSpec.read OutputSpec.write v := by
  intro o h
  obtain ⟨_, resolution, rfl, h, _⟩ := (Record.canGive_of_read h).of_seq
  obtain ⟨_, unit, rfl, h, _⟩ := h.of_seq
  obtain ⟨id, rfl, _⟩ := h.of_map
  refine Record.Gives.read (.seq (.seq (.map _ ?_) ?_) ?_)
  · exact Record.gives_text (valuesAt_written _ (by simp))
  · exact Record.gives_required (valuesAt_written (some (.string unit)) (by simp)) rfl
  · exact Record.gives_required (valuesAt_written (some (.string resolution.text)) (by simp))
      (resolution_text resolution)

end EnergyFormula
