import EnergyFormula.Evaluation.Location
import EnergyFormula.Proofs.Evaluation.Shape
import EnergyFormula.Proofs.Time.Parts

/-!
# Windows on a grid

* `coverWindows_eq_ok_iff`: the pass over the slices succeeds exactly if their windows tile the grid
  (`Grid.TiledBy`).
* `exists_windowSamples_iff`: tiling windows have samples exactly if each of their slices has
  samples on a grid of its own.
* `getElem?_windowSamples`: the sample of an interval is the one that the slice whose window holds
  the start of the interval has there.
-/

namespace EnergyFormula

/-! ### Tilings -/

/-- From an interval on the grid is tiled by windows: each of them begins where the one before it
ends, and the last one ends with the grid. -/
inductive Grid.TiledBy (grid : Grid) : Nat → List SliceWindow → Prop
  | nil : TiledBy grid grid.length []
  | cons {i j : Nat} {w : SliceWindow} {rest : List SliceWindow}
      (hwindow : w.window = ⟨grid.startOf i, grid.startOf j⟩) (hlt : i < j)
      (hrest : TiledBy grid j rest) : TiledBy grid i (w :: rest)

theorem Grid.TiledBy.le_length {grid : Grid} {i : Nat} {windows : List SliceWindow}
    (h : grid.TiledBy i windows) : i ≤ grid.length := by
  induction h with
  | nil => exact Nat.le_refl _
  | cons _ hlt _ ih => exact Nat.le_trans (Nat.le_of_lt hlt) ih

namespace Grid

variable {grid : Grid} {i : Nat} {windows : List SliceWindow}

/-- A tiling leaves no gap. -/
theorem TiledBy.exists_contains (hg : grid.period.OutsideLeaps) (h : grid.TiledBy i windows)
    {t : Instant} (hstart : grid.startOf i ≤ t) (hstop : t < grid.period.stop) :
    ∃ w ∈ windows, w.window.contains t = true := by
  induction h with
  | nil =>
    rw [startOf_length hg, Instant.le_def] at hstart
    rw [Instant.lt_def] at hstop
    exact absurd hstart (Int.not_le.2 hstop)
  | @cons i j w rest hwindow _ _ ih =>
    by_cases hj : t < grid.startOf j
    · refine ⟨w, List.mem_cons_self, ?_⟩
      rw [hwindow, Period.contains, Bool.and_eq_true, decide_eq_true_eq, decide_eq_true_eq]
      exact ⟨hstart, hj⟩
    · obtain ⟨v, hv, hcontains⟩ := ih (Instant.not_lt.1 hj)
      exact ⟨v, List.mem_cons_of_mem w hv, hcontains⟩

/-- The windows of a tiling begin and end at boundaries. -/
theorem TiledBy.exists_window_eq (h : grid.TiledBy i windows) :
    ∀ w ∈ windows, ∃ a b, w.window = ⟨grid.startOf a, grid.startOf b⟩ ∧ a < b := by
  induction h with
  | nil => exact List.forall_mem_nil _
  | cons hwindow hlt _ ih => exact List.forall_mem_cons.2 ⟨⟨_, _, hwindow, hlt⟩, ih⟩

end Grid

/-! ### The pass over the slices -/

/-- The window is the part of the period in which its slice is valid. -/
def SliceWindow.IsPart (period : Period) (s : TimeSlice) (w : SliceWindow) : Prop :=
  w.slice = s ∧ s.validity.intersect? period = some w.window

theorem TimeSlice.window_eq_ok_iff {s : TimeSlice} {period p : Period} :
    s.window period = .ok p ↔ s.validity.intersect? period = some p := by
  unfold TimeSlice.window
  cases s.validity.intersect? period with
  | none => exact iff_of_false (by nofun) (by nofun)
  | some q => rw [Except.ok.injEq, Option.some.injEq]

section Cover

variable {location : LocationId} {grid : Grid} {cursor : Instant} {s : TimeSlice}
  {slices : List TimeSlice} {windows : List SliceWindow}

theorem coverWindows_cons :
    coverWindows location grid cursor (s :: slices) =
      s.window grid.period >>= fun window =>
        if window.start ≠ cursor then .error (.of (.uncovered location cursor window.start))
        else if !grid.isBoundary window.start || !grid.isBoundary window.stop then
          .error (.of (.sliceBoundary s.id window grid.resolution))
        else
          coverWindows location grid window.stop slices >>= fun rest => .ok (⟨s, window⟩ :: rest) :=
  rfl

/-- A step of the pass: the window of the slice begins at the cursor, and its bounds are
boundaries of the grid. -/
theorem coverWindows_cons_eq_ok_iff :
    coverWindows location grid cursor (s :: slices) = .ok windows ↔
      ∃ w rest, SliceWindow.IsPart grid.period s w ∧ w.window.start = cursor ∧
        grid.isBoundary w.window.start = true ∧ grid.isBoundary w.window.stop = true ∧
          coverWindows location grid w.window.stop slices = .ok rest ∧ windows = w :: rest := by
  rw [coverWindows_cons, bind_eq_ok]
  constructor
  · rintro ⟨window, hwindow, h⟩
    split at h
    · cases h
    · rename_i hcursor
      split at h
      · cases h
      · rename_i hbounds
        obtain ⟨rest, hrest, h⟩ := bind_eq_ok.1 h
        cases h
        rw [Bool.or_eq_true, Bool.not_eq_true', Bool.not_eq_true', not_or,
          Bool.not_eq_false, Bool.not_eq_false] at hbounds
        exact ⟨⟨s, window⟩, rest, ⟨rfl, TimeSlice.window_eq_ok_iff.1 hwindow⟩,
          Decidable.not_not.1 hcursor, hbounds.1, hbounds.2, hrest, rfl⟩
  · rintro ⟨⟨_, window⟩, rest, ⟨rfl, hwindow⟩, hcursor, hstart, hstop, hrest, rfl⟩
    refine ⟨window, TimeSlice.window_eq_ok_iff.2 hwindow, ?_⟩
    rw [if_neg (not_not_intro hcursor), hstart, hstop]
    exact bind_eq_ok.2 ⟨rest, hrest, rfl⟩

/-- The pass gives each slice its window. -/
theorem isPart_of_coverWindows (h : coverWindows location grid cursor slices = .ok windows) :
    List.Forall₂ (SliceWindow.IsPart grid.period) slices windows := by
  induction slices generalizing cursor windows with
  | nil =>
    unfold coverWindows at h
    split at h
    · cases h
      exact .nil
    · cases h
  | cons s slices ih =>
    obtain ⟨w, rest, hpart, _, _, _, hrest, rfl⟩ := coverWindows_cons_eq_ok_iff.1 h
    exact .cons hpart (ih hrest)

/-- The pass succeeds exactly if the windows of the slices tile the grid from the cursor on. -/
theorem coverWindows_eq_ok_iff (hg : grid.period.OutsideLeaps) {i : Nat}
    (hslices : ∀ s ∈ slices, s.validity.OutsideLeaps) :
    coverWindows location grid (grid.startOf i) slices = .ok windows ↔
      List.Forall₂ (SliceWindow.IsPart grid.period) slices windows ∧ grid.TiledBy i windows := by
  -- the cursor stands at a boundary before each step
  induction slices generalizing i windows with
  | nil =>
    rw [coverWindows, ← Grid.startOf_length hg, List.forall₂_nil_left_iff]
    constructor
    · intro h
      split at h
      · rename_i hend
        cases h
        obtain rfl := (Grid.startOf_inj hg).1 hend
        exact ⟨rfl, .nil⟩
      · cases h
    · rintro ⟨rfl, htiled⟩
      cases htiled
      exact if_pos rfl
  | cons s rest ih =>
    obtain ⟨hs, hrest⟩ := List.forall_mem_cons.1 hslices
    rw [coverWindows_cons_eq_ok_iff, List.forall₂_cons_left_iff]
    constructor
    · rintro ⟨w, windows, hw, hcursor, _, hstop, hcover, rfl⟩
      have hleaps := hs.intersect? hg hw.2
      obtain ⟨j, _, hj⟩ := (Grid.isBoundary_iff hg hleaps.2).1 hstop
      rw [hj] at hcover
      obtain ⟨hparts, htiled⟩ := (ih hrest).1 hcover
      have hwindow : w.window = ⟨grid.startOf i, grid.startOf j⟩ := by
        rw [← hcursor, ← hj]
      -- a window holds an instant
      have hlt : i < j := by
        rw [← Grid.startOf_lt_startOf_iff hg, ← hcursor, ← hj]
        exact (Period.intersect?_eq_some_iff.1 hw.2).2
      exact ⟨⟨w, windows, hw, hparts, rfl⟩, .cons hwindow hlt htiled⟩
    · rintro ⟨⟨w, windows, hw, hparts, rfl⟩, htiled⟩
      obtain _ | ⟨hwindow, hlt, htiled⟩ := htiled
      rename_i j
      refine ⟨w, windows, hw, ?_, ?_, ?_, ?_, rfl⟩
      · rw [hwindow]
      · rw [hwindow, Grid.isBoundary_iff hg (Grid.not_isLeap_startOf hg i)]
        exact ⟨i, Nat.le_trans (Nat.le_of_lt hlt) htiled.le_length, rfl⟩
      · rw [hwindow, Grid.isBoundary_iff hg (Grid.not_isLeap_startOf hg j)]
        exact ⟨j, htiled.le_length, rfl⟩
      · rw [hwindow]
        exact (ih hrest).2 ⟨hparts, htiled⟩

end Cover

/-! ### The samples of windows -/

section Samples

variable {settings : Settings} {inputs : Inputs} {resolution : Resolution} {w : SliceWindow}
  {windows : List SliceWindow} {samples : Array Sample}

/-- A slice has a sample in every interval of a grid, with data or without. -/
theorem TimeSlice.size_samples {s : TimeSlice} {grid : Grid}
    (h : s.samples settings inputs grid = .ok samples) : samples.size = grid.length := by
  unfold TimeSlice.samples at h
  split at h
  · cases h
    exact Array.size_replicate
  · split at h
    · rename_i own hown
      cases h
      exact Formula.size_samples hown
    · cases h

theorem TimeSlice.lt_length_of_getElem? {s : TimeSlice} {grid : Grid} {i : Nat} {x : Sample}
    (h : s.samples settings inputs grid = .ok samples) (hx : samples[i]? = some x) :
    i < grid.length := by
  rw [← TimeSlice.size_samples h]
  exact (Array.getElem?_eq_some_iff.1 hx).1

theorem windowSamples_cons_eq_ok_iff :
    windowSamples settings inputs resolution (w :: windows) = .ok samples ↔
      ∃ part own others, Grid.build w.window resolution = .ok part ∧
        w.slice.samples settings inputs part = .ok own ∧
          windowSamples settings inputs resolution windows = .ok others ∧
            samples = own ++ others := by
  rw [windowSamples, bind_eq_ok]
  constructor
  · rintro ⟨part, hpart, h⟩
    obtain ⟨own, hown, h⟩ := bind_eq_ok.1 h
    obtain ⟨others, hothers, h⟩ := bind_eq_ok.1 h
    cases h
    exact ⟨part, own, others, hpart, hown, hothers, rfl⟩
  · rintro ⟨part, own, others, hpart, hown, hothers, rfl⟩
    exact ⟨part, hpart, bind_eq_ok.2 ⟨own, hown, bind_eq_ok.2 ⟨others, hothers, rfl⟩⟩⟩

/-- Windows have samples exactly if each of them has samples on a grid of its own. -/
theorem exists_windowSamples_iff :
    (∃ samples, windowSamples settings inputs resolution windows = .ok samples) ↔
      ∀ w ∈ windows, ∃ part own, Grid.build w.window resolution = .ok part ∧
        w.slice.samples settings inputs part = .ok own := by
  induction windows with
  | nil => exact iff_of_true ⟨#[], rfl⟩ (List.forall_mem_nil _)
  | cons w rest ih =>
    rw [List.forall_mem_cons, ← ih]
    simp only [windowSamples_cons_eq_ok_iff]
    constructor
    · rintro ⟨_, part, own, others, hpart, hown, hothers, _⟩
      exact ⟨⟨part, own, hpart, hown⟩, others, hothers⟩
    · rintro ⟨⟨part, own, hpart, hown⟩, others, hothers⟩
      exact ⟨own ++ others, part, own, others, hpart, hown, hothers, rfl⟩

/-- Every sample of windows is one of a slice on the grid of its window. -/
theorem mem_windowSamples (h : windowSamples settings inputs resolution windows = .ok samples)
    {x : Sample} (hx : x ∈ samples) :
    ∃ w ∈ windows, ∃ part own, Grid.build w.window resolution = .ok part ∧
      w.slice.samples settings inputs part = .ok own ∧ x ∈ own := by
  induction windows generalizing samples with
  | nil =>
    cases h
    exact absurd hx (Array.not_mem_empty x)
  | cons w rest ih =>
    obtain ⟨part, own, others, hpart, hown, hothers, rfl⟩ := windowSamples_cons_eq_ok_iff.1 h
    rcases Array.mem_append.1 hx with hx | hx
    · exact ⟨w, List.mem_cons_self, part, own, hpart, hown, hx⟩
    · obtain ⟨v, hv, hsample⟩ := ih hothers hx
      exact ⟨v, List.mem_cons_of_mem w hv, hsample⟩

/-- The samples of tiling windows: one for each interval that is left, taken from a slice whose
window has an interval with the same start. -/
theorem getElem?_windowSamples {grid : Grid} (hg : grid.period.OutsideLeaps) {i : Nat}
    (htiled : grid.TiledBy i windows)
    (h : windowSamples settings inputs grid.resolution windows = .ok samples) :
    samples.size = grid.length - i ∧
      ∀ k sample, samples[k]? = some sample →
        ∃ w ∈ windows, ∃ part own m, Grid.build w.window grid.resolution = .ok part ∧
          w.slice.samples settings inputs part = .ok own ∧ own[m]? = some sample ∧
            part.startOf m = grid.startOf (i + k) := by
  induction htiled generalizing samples with
  | nil =>
    cases h
    refine ⟨(Nat.sub_self _).symm, fun k sample hk => ?_⟩
    cases hk
  | @cons i j w rest hwindow hlt htiled ih =>
    obtain ⟨part, own, others, hpart, hown, hothers, rfl⟩ := windowSamples_cons_eq_ok_iff.1 h
    obtain ⟨hsize, hget⟩ := ih hothers
    have hj := htiled.le_length
    obtain ⟨part', hpart', hlength, hstart⟩ := Grid.exists_build_between hg hlt
    rw [← hwindow, hpart, Except.ok.injEq] at hpart'
    subst hpart'
    have hown' : own.size = j - i := by rw [TimeSlice.size_samples hown, hlength]
    refine ⟨?_, fun k sample hk => ?_⟩
    · rw [Array.size_append, hown', hsize]
      omega
    · rw [Array.getElem?_append] at hk
      split at hk
      · exact ⟨w, List.mem_cons_self, part, own, k, hpart, hown, hk, hstart k⟩
      · -- behind the first window the intervals are counted from its end
        rename_i hge
        obtain ⟨v, hv, part', own', m, hpart', hown'', hm, hstart'⟩ := hget _ _ hk
        refine ⟨v, List.mem_cons_of_mem w hv, part', own', m, hpart', hown'', hm, ?_⟩
        rw [hstart']
        congr 1
        omega

end Samples

end EnergyFormula
