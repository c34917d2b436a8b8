import EnergyFormula.Proofs.Evaluation.Windows

/-!
# Slices that cover a period

Slices that are in force one after another tile a grid exactly if they leave no gap in its period
and change within it only at boundaries of the grid (`exists_coverWindows_iff`).
-/

namespace EnergyFormula

/-- Slices that are in force one after another, each of them in some part of the period. -/
structure Period.Row (p : Period) (slices : List TimeSlice) : Prop where
  outsideLeaps : ∀ s ∈ slices, s.validity.OutsideLeaps
  nonempty : ∀ s ∈ slices, s.validFrom < s.validTo
  overlaps : ∀ s ∈ slices, s.validity.overlaps p = true
  follow : slices.Pairwise fun a b => a.validTo ≤ b.validFrom

theorem Period.Row.tail {p : Period} {s : TimeSlice} {rest : List TimeSlice}
    (h : p.Row (s :: rest)) : p.Row rest :=
  ⟨(List.forall_mem_cons.1 h.outsideLeaps).2, (List.forall_mem_cons.1 h.nonempty).2,
    (List.forall_mem_cons.1 h.overlaps).2, (List.pairwise_cons.1 h.follow).2⟩

/-- Within the period of the grid the slice begins and ends at boundaries only. -/
def TimeSlice.ChangesOn (s : TimeSlice) (grid : Grid) : Prop :=
  ∀ t ∈ [s.validFrom, s.validTo], grid.period.start < t → t < grid.period.stop →
    ∃ k, t = grid.startOf k

namespace Grid

variable {grid : Grid} {i : Nat} {slices : List TimeSlice} {windows : List SliceWindow}

/-! ### Tiled grids are covered -/

/-- Slices whose windows tile the grid leave no gap. -/
theorem exists_covers_of_tiledBy (hg : grid.period.OutsideLeaps)
    (hparts : List.Forall₂ (SliceWindow.IsPart grid.period) slices windows)
    (htiled : grid.TiledBy i windows) {t : Instant} (hstart : grid.startOf i ≤ t)
    (hstop : t < grid.period.stop) : ∃ s ∈ slices, s.covers t = true := by
  obtain ⟨w, hw, hcontains⟩ := htiled.exists_contains hg hstart hstop
  obtain ⟨s, hs, _, hpart⟩ := exists_left_of_forall₂ hparts w hw
  exact ⟨s, hs, ((Period.mem_intersect? hpart t).1 hcontains).1⟩

/-- Slices whose windows tile the grid change at boundaries. -/
theorem changesOn_of_tiledBy
    (hparts : List.Forall₂ (SliceWindow.IsPart grid.period) slices windows)
    (htiled : grid.TiledBy i windows) : ∀ s ∈ slices, s.ChangesOn grid := by
  intro s hs t ht hstart hstop
  obtain ⟨w, hw, _, hpart⟩ := exists_right_of_forall₂ hparts s hs
  obtain ⟨a, b, hwindow, _⟩ := htiled.exists_window_eq w hw
  rw [hwindow] at hpart
  obtain ⟨hbounds, _⟩ := Period.intersect?_eq_some_iff.1 hpart
  obtain ⟨ha, hb⟩ := Period.mk.inj hbounds
  -- a bound inside the period is a bound of the window
  rcases List.mem_pair.1 ht with rfl | rfl
  · exact ⟨a, (ha.trans (Instant.latest_of_ge (Instant.le_of_lt hstart))).symm⟩
  · exact ⟨b, (hb.trans (Instant.earliest_of_le (Instant.le_of_lt hstop))).symm⟩

/-! ### Covered grids are tiled -/

/-- The end of the window of a slice that changes on the grid is a boundary of it. -/
theorem exists_startOf_eq_earliest (hg : grid.period.OutsideLeaps) {s : TimeSlice}
    (hoverlap : s.validity.overlaps grid.period = true) (hchanges : s.ChangesOn grid) :
    ∃ j ≤ grid.length, s.validTo.earliest grid.period.stop = grid.startOf j := by
  rw [Period.overlaps, Bool.and_eq_true, decide_eq_true_eq, decide_eq_true_eq] at hoverlap
  by_cases hstop : s.validTo < grid.period.stop
  · obtain ⟨j, hj⟩ := hchanges s.validTo (by simp) hoverlap.2 hstop
    refine ⟨j, ?_, ?_⟩
    · rw [← startOf_le_startOf_iff hg, ← hj, startOf_length hg]
      exact Instant.le_of_lt hstop
    · rw [Instant.earliest_of_le (Instant.le_of_lt hstop), hj]
  · -- the window ends with the period
    refine ⟨grid.length, Nat.le_refl _, ?_⟩
    rw [startOf_length hg]
    exact Instant.earliest_of_ge (Instant.not_lt.1 hstop)

/-- Among slices that leave no gap from an interval on, the first one is in force there. -/
theorem startOf_eq_latest (hg : grid.period.OutsideLeaps) {s : TimeSlice} {rest : List TimeSlice}
    (hrow : grid.period.Row (s :: rest))
    (hcursor : grid.startOf i ≤ s.validFrom.latest grid.period.start)
    (hcovers : ∀ t, grid.startOf i ≤ t → t < grid.period.stop →
      ∃ s' ∈ s :: rest, s'.covers t = true) :
    s.validFrom.latest grid.period.start = grid.startOf i := by
  obtain ⟨hvalid, _⟩ := List.forall_mem_cons.1 hrow.nonempty
  obtain ⟨hoverlap, _⟩ := List.forall_mem_cons.1 hrow.overlaps
  obtain ⟨hfollow, _⟩ := List.pairwise_cons.1 hrow.follow
  have hwindow := (Period.intersect?_eq_some_iff.1
    (Period.intersect?_of_overlaps hvalid grid.nonempty hoverlap)).2
  have hfirst : grid.period.start ≤ grid.startOf i := by
    rw [← startOf_zero, startOf_le_startOf_iff hg]
    exact Nat.zero_le i
  simp only [TimeSlice.validity, Instant.lt_def, Instant.le_def, Instant.rank_latest,
    Instant.rank_earliest] at hwindow hfirst hcursor
  -- the slice in force at the start of the interval is the first one
  obtain ⟨s', hs', hs'covers⟩ := hcovers (grid.startOf i) (Int.le_refl _) (by
    rw [Instant.lt_def]
    omega)
  simp only [TimeSlice.covers, TimeSlice.validity, Period.contains, Bool.and_eq_true,
    decide_eq_true_eq, Instant.lt_def, Instant.le_def] at hs'covers
  refine Instant.eq_of_rank_eq ?_
  rw [Instant.rank_latest]
  rcases List.mem_cons.1 hs' with rfl | hrest
  · omega
  · -- a later slice is not in force yet
    have hlater := hfollow s' hrest
    rw [Instant.le_def] at hlater
    omega

/-- Where the window of the first slice ends, no later slice has begun. -/
theorem startOf_le_latest_of_mem {s s' : TimeSlice} {rest : List TimeSlice} {j : Nat}
    (hrow : grid.period.Row (s :: rest))
    (hstop : s.validTo.earliest grid.period.stop = grid.startOf j) (hs' : s' ∈ rest) :
    grid.startOf j ≤ s'.validFrom.latest grid.period.start := by
  obtain ⟨hfollow, _⟩ := List.pairwise_cons.1 hrow.follow
  have hlater := hfollow s' hs'
  rw [Instant.le_def] at hlater ⊢
  rw [← hstop, Instant.rank_earliest, Instant.rank_latest]
  omega

/-- Behind the window of the first slice the others cover what is left. -/
theorem exists_covers_of_tail {s : TimeSlice} {rest : List TimeSlice} {j : Nat} {t : Instant}
    (hstop : s.validTo.earliest grid.period.stop = grid.startOf j) (ht : grid.startOf j ≤ t)
    (htstop : t < grid.period.stop) (hcovers : ∃ s' ∈ s :: rest, s'.covers t = true) :
    ∃ s' ∈ rest, s'.covers t = true := by
  have hend : (grid.startOf j).rank = min s.validTo.rank grid.period.stop.rank := by
    rw [← hstop, Instant.rank_earliest]
  obtain ⟨s', hs', hcoversT⟩ := hcovers
  rcases List.mem_cons.1 hs' with rfl | hrest
  · -- the first slice is over
    simp only [TimeSlice.covers, TimeSlice.validity, Period.contains, Bool.and_eq_true,
      decide_eq_true_eq, Instant.lt_def, Instant.le_def] at hcoversT htstop ht
    omega
  · exact ⟨s', hrest, hcoversT⟩

/-- Slices that leave no gap from an interval on, and change at boundaries only, have windows that
tile the grid from there on. -/
theorem exists_tiledBy (hg : grid.period.OutsideLeaps) (hrow : grid.period.Row slices)
    (hi : i ≤ grid.length)
    (hcursor : ∀ s ∈ slices, grid.startOf i ≤ s.validFrom.latest grid.period.start)
    (hcovers : ∀ t, grid.startOf i ≤ t → t < grid.period.stop → ∃ s ∈ slices, s.covers t = true)
    (hchanges : ∀ s ∈ slices, s.ChangesOn grid) :
    ∃ windows, List.Forall₂ (SliceWindow.IsPart grid.period) slices windows ∧
      grid.TiledBy i windows := by
  induction slices generalizing i with
  | nil =>
    -- no slice covers anything that is left
    have hend : i = grid.length := by
      refine Nat.le_antisymm hi (Nat.not_lt.1 fun hlt => ?_)
      rw [← startOf_lt_startOf_iff hg, startOf_length hg] at hlt
      obtain ⟨s, hs, _⟩ := hcovers (grid.startOf i) (Int.le_refl _) hlt
      cases hs
    rw [hend]
    exact ⟨[], .nil, .nil⟩
  | cons s rest ih =>
    obtain ⟨hvalid, _⟩ := List.forall_mem_cons.1 hrow.nonempty
    obtain ⟨hoverlap, _⟩ := List.forall_mem_cons.1 hrow.overlaps
    obtain ⟨hsChanges, hrestChanges⟩ := List.forall_mem_cons.1 hchanges
    have hpart := Period.intersect?_of_overlaps hvalid grid.nonempty hoverlap
    have hstart := startOf_eq_latest hg hrow (hcursor s List.mem_cons_self) hcovers
    obtain ⟨j, hj, hstop⟩ := exists_startOf_eq_earliest hg hoverlap hsChanges
    have hlt : i < j := by
      rw [← startOf_lt_startOf_iff hg, ← hstart, ← hstop]
      exact (Period.intersect?_eq_some_iff.1 hpart).2
    -- the cursor moves on to the end of the window
    have hmove : grid.startOf i ≤ grid.startOf j :=
      (startOf_le_startOf_iff hg).2 (Nat.le_of_lt hlt)
    have hrestCovers : ∀ t, grid.startOf j ≤ t → t < grid.period.stop →
        ∃ s' ∈ rest, s'.covers t = true := by
      intro t ht htstop
      exact exists_covers_of_tail hstop ht htstop (hcovers t (Int.le_trans hmove ht) htstop)
    obtain ⟨windows, hparts, htiled⟩ := ih hrow.tail hj
      (fun s' hs' => startOf_le_latest_of_mem hrow hstop hs') hrestCovers hrestChanges
    refine ⟨⟨s, ⟨grid.startOf i, grid.startOf j⟩⟩ :: windows, .cons ⟨rfl, ?_⟩ hparts,
      .cons rfl hlt htiled⟩
    rw [← hstart, ← hstop]
    exact hpart

end Grid

/-! ### Main result -/

/-- Slices that are in force one after another cover a period on a grid exactly if they leave no
gap in it and change within it only at boundaries. -/
theorem exists_coverWindows_iff {location : LocationId} {grid : Grid} {slices : List TimeSlice}
    (hg : grid.period.OutsideLeaps) (hrow : grid.period.Row slices) :
    (∃ windows, coverWindows location grid grid.period.start slices = .ok windows) ↔
      (∀ t, grid.period.contains t = true → ∃ s ∈ slices, s.covers t = true) ∧
        ∀ s ∈ slices, s.ChangesOn grid := by
  have hcontains (t : Instant) :
      grid.period.contains t = true ↔ grid.startOf 0 ≤ t ∧ t < grid.period.stop := by
    rw [Grid.startOf_zero, Period.contains, Bool.and_eq_true, decide_eq_true_eq, decide_eq_true_eq]
  rw [← Grid.startOf_zero]
  simp only [coverWindows_eq_ok_iff hg hrow.outsideLeaps, hcontains, and_imp]
  constructor
  · rintro ⟨windows, hparts, htiled⟩
    exact ⟨fun t hstart hstop => Grid.exists_covers_of_tiledBy hg hparts htiled hstart hstop,
      Grid.changesOn_of_tiledBy hparts htiled⟩
  · rintro ⟨hcovers, hchanges⟩
    refine Grid.exists_tiledBy hg hrow (Nat.zero_le _) (fun s _ => ?_) hcovers hchanges
    rw [Instant.le_def, Grid.startOf_zero, Instant.rank_latest]
    exact Int.le_max_right _ _

end EnergyFormula
