import EnergyFormula.Proofs.Document.Series
import EnergyFormula.Proofs.Evaluation.InForce
import EnergyFormula.Proofs.Evaluation.Reference
import EnergyFormula.Proofs.Number.Rounding

/-!
# Produced series

A series that is produced over a grid is finite exactly if its samples are
(`isFinite_outputSeries_iff`).  Its intervals tile the period (`tiles_outputSeries`) and lie in the
calendar with it (`inCalendar_outputSeries`), so that whether it can be calculated with depends on
its quantities alone (`checkEvaluable_outputSeries_iff`).
-/

namespace EnergyFormula

/-! ### Series over a grid -/

section Output

variable {settings : Settings} {output : OutputSpec} {location : Option LocationId} {grid : Grid}
  {samples : Array Sample}

/-- The intervals of a produced series are those of the grid, each with its sample. -/
theorem mem_intervals_outputSeries {i : Interval} :
    i ∈ (outputSeries settings output location grid samples).intervals ↔
      ∃ k s, samples[k]? = some s ∧ i = Interval.atIndex grid.period.start grid.resolution k
        (Number.roundHalfAway s.value settings.quantityScale) s.quality := by
  rw [Array.mem_iff_getElem?]
  refine exists_congr fun k => ?_
  rw [getElem?_intervals_outputSeries, Option.map_eq_some_iff]
  exact exists_congr fun s => and_congr_right fun _ => eq_comm

/-- A produced series is finite exactly if the samples are, before they are rounded. -/
theorem isFinite_outputSeries_iff :
    (outputSeries settings output location grid samples).IsFinite ↔
      ∀ s ∈ samples, s.value.isFinite = true := by
  constructor
  · intro h s hs
    obtain ⟨k, hk⟩ := Array.mem_iff_getElem?.1 hs
    have hquantity := h _ (mem_intervals_outputSeries.2 ⟨k, s, hk, rfl⟩)
    rwa [← Number.isFinite_roundHalfAway s.value settings.quantityScale]
  · intro h i hi
    obtain ⟨k, s, hk, rfl⟩ := mem_intervals_outputSeries.1 hi
    show (Number.roundHalfAway s.value settings.quantityScale).isFinite = true
    rw [Number.isFinite_roundHalfAway]
    exact h s (Array.mem_of_getElem? hk)

/-- The interval of a grid at an index. -/
theorem atIndex_eq (hg : grid.period.OutsideLeaps) (k : Nat) (quantity : Float)
    (quality : IntervalQuality) :
    Interval.atIndex grid.period.start grid.resolution k quantity quality =
      ⟨k + 1, grid.startOf k, grid.startOf (k + 1), quantity, quality⟩ := by
  rw [← Grid.startOf_succ hg]
  rfl

theorem outsideLeaps_outputSeries (hg : grid.period.OutsideLeaps) :
    (outputSeries settings output location grid samples).OutsideLeaps := by
  refine ⟨hg, fun i hi => ?_⟩
  obtain ⟨k, s, _, rfl⟩ := mem_intervals_outputSeries.1 hi
  rw [atIndex_eq hg]
  exact ⟨Grid.not_isLeap_startOf hg k, Grid.not_isLeap_startOf hg (k + 1)⟩

/-- Positions count from one. -/
theorem position_outputSeries {k : Nat}
    (hk : k < (outputSeries settings output location grid samples).intervals.toList.length) :
    (outputSeries settings output location grid samples).intervals.toList[k].position = k + 1 := by
  have hget := List.getElem?_eq_getElem hk
  rw [Array.getElem?_toList, getElem?_intervals_outputSeries, Option.map_eq_some_iff] at hget
  obtain ⟨s, _, hs⟩ := hget
  rw [← hs]
  rfl

/-- A produced series tiles the period of the grid. -/
theorem tiles_outputSeries (hg : grid.period.OutsideLeaps) (hsize : samples.size = grid.length) :
    (outputSeries settings output location grid samples).Tiles where
  nonempty := grid.nonempty
  positions := by
    rw [List.pairwise_iff_getElem]
    intro a b ha hb hab
    rw [position_outputSeries, position_outputSeries]
    omega
  follow k i hk := by
    rw [Array.getElem?_toList, getElem?_intervals_outputSeries, Option.map_eq_some_iff] at hk
    obtain ⟨s, _, rfl⟩ := hk
    rw [atIndex_eq hg]
    exact ⟨rfl, rfl⟩
  stop := by
    rw [size_intervals_outputSeries, hsize]
    exact (Grid.startOf_length hg).symm

/-- A grid in the calendar has no more intervals than the calendar has seconds. -/
theorem Grid.length_lt (hg : grid.period.OutsideLeaps) (hcalendar : grid.period.InCalendar) :
    grid.length < 20000000000000 := by
  have hstart := Instant.second_mem_of_inCalendar hcalendar.1
  have hstop := Instant.second_mem_of_inCalendar hcalendar.2
  have hlength : grid.length ≤ grid.resolution.span grid.length :=
    Nat.le_mul_of_pos_left _ grid.resolution.positive
  rw [← Grid.startOf_length hg, Grid.startOf, Instant.second_after] at hstop
  omega

/-- The boundaries of a grid in the calendar lie there too. -/
theorem Grid.inCalendar_startOf (hg : grid.period.OutsideLeaps)
    (hcalendar : grid.period.InCalendar) {k : Nat} (hk : k ≤ grid.length) :
    (grid.startOf k).InCalendar := by
  have hspan : grid.resolution.span k ≤ grid.resolution.span grid.length :=
    Resolution.span_le_span_iff.2 hk
  refine Instant.inCalendar_of_mem hcalendar.1 hcalendar.2 ?_ ?_
  · rw [Grid.startOf, Instant.second_after]
    omega
  · rw [← Grid.startOf_length hg, Grid.startOf, Grid.startOf, Instant.second_after,
      Instant.second_after]
    omega

/-- A series that is produced over a period of the calendar lies in the calendar. -/
theorem inCalendar_outputSeries (hg : grid.period.OutsideLeaps)
    (hcalendar : grid.period.InCalendar) (hsize : samples.size = grid.length) :
    (outputSeries settings output location grid samples).InCalendar where
  period := hcalendar
  intervals i hi := by
    obtain ⟨k, s, hk, rfl⟩ := mem_intervals_outputSeries.1 hi
    obtain ⟨hlt, _⟩ := Array.getElem?_eq_some_iff.1 hk
    have hlength := Grid.length_lt hg hcalendar
    rw [hsize] at hlt
    rw [atIndex_eq hg]
    refine ⟨Grid.inCalendar_startOf hg hcalendar (Nat.le_of_lt hlt),
      Grid.inCalendar_startOf hg hcalendar hlt, ?_⟩
    dsimp only
    omega

/-- A produced series can be calculated with exactly if it is finite. -/
theorem checkEvaluable_outputSeries_iff (hg : grid.period.OutsideLeaps)
    (hsize : samples.size = grid.length) :
    (outputSeries settings output location grid samples).checkEvaluable = .ok () ↔
      (outputSeries settings output location grid samples).IsFinite := by
  rw [TimeSeries.checkEvaluable_eq_ok_iff (outsideLeaps_outputSeries hg)]
  exact and_iff_right (tiles_outputSeries hg hsize)

end Output

end EnergyFormula
