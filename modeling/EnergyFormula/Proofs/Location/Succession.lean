import EnergyFormula.Proofs.Formula.Part
import EnergyFormula.Proofs.Location.Order
import EnergyFormula.Proofs.Location.Pairs

/-!
# Slices in succession

A location is built from slices exactly if there are any, none of them is empty, and no two of them
have an instant in common.  It then has these slices in succession, so that a search for the first
slice that is valid at an instant finds the only one, and the first and the last slice bound all of
them (`FormulaLocation.build_in_succession`).

* `Period.apart_iff_not_meets`: periods that are not empty are apart if no instant is in both.
* `filter_eq_toList_find?`: of items that exclude each other a search finds all there are.
* `FormulaLocation.exists_bounds`: the first and the last slice.
-/

namespace EnergyFormula

/-- Periods that are not empty are apart exactly if they have no instant in common. -/
theorem Period.apart_iff_not_meets {p q : Period} (hp : p.start < p.stop) (hq : q.start < q.stop) :
    p.Apart q ↔ ¬ p.Meets q := by
  simp only [meets_iff, hp, hq, Apart, overlaps, true_and, Bool.and_eq_true, decide_eq_true_eq,
    Instant.le_def, Instant.lt_def]
  omega

/-- Among items of which no two satisfy a test, those that satisfy it are the one that is found. -/
theorem filter_eq_toList_find? {α : Type} {test : α → Bool} {xs : List α}
    (h : xs.Pairwise fun a b => test a = true → test b = false) :
    xs.filter test = (xs.find? test).toList := by
  induction xs with
  | nil => rfl
  | cons x xs ih =>
    obtain ⟨hx, hxs⟩ := List.pairwise_cons.1 h
    by_cases htest : test x = true
    · have hnone : xs.filter test = [] :=
        List.filter_eq_nil_iff.2 fun y hy => by simp [hx y hy htest]
      simp [htest, hnone]
    · simp [htest, ih hxs]

/-! ### Slices without defects -/

theorem sliceDefects_eq_nil_iff_not_meets {slices : List TimeSlice} :
    sliceDefects slices = [] ↔
      slices ≠ [] ∧ (∀ s ∈ slices, s.validFrom < s.validTo) ∧
        slices.Pairwise fun a b => ¬ a.validity.Meets b.validity := by
  rw [sliceDefects_eq_nil_iff]
  refine and_congr_right fun _ => and_congr_right fun hvalid => ?_
  refine List.Pairwise.iff_of_mem fun {a b} ha hb => ?_
  exact Period.apart_iff_not_meets (hvalid a ha) (hvalid b hb)

namespace FormulaLocation

theorem exists_build_iff {location : LocationId} {slices : List TimeSlice} :
    (∃ l, build location slices = .ok l) ↔ sliceDefects slices = [] := by
  constructor
  · rintro ⟨l, hl⟩
    exact (build_eq_ok_iff.1 hl).1
  · intro h
    exact ⟨⟨location, inForceOrder slices, slices, h, rfl⟩, build_eq_ok_iff.2 ⟨h, rfl, rfl⟩⟩

/-! ### Slices of a location -/

section Slices

variable (l : FormulaLocation)

/-- The slices that are valid at an instant are the one that is found. -/
theorem filter_covers_eq (t : Instant) :
    l.timeSlices.filter (·.covers t) = (l.sliceAt? t).toList := by
  refine filter_eq_toList_find? (l.pairwise_timeSlices.imp fun {a b} hab ha => ?_)
  have hapart : a.validity.Apart b.validity := .inl hab
  exact hapart.not_contains ha

/-- The slices that overlap a period which is not empty have an instant in common with it. -/
theorem slicesOverlapping_eq {p : Period} (hp : p.start < p.stop) :
    l.slicesOverlapping p = l.timeSlices.filter fun s => s.validity.Meets p := by
  refine List.filter_congr fun s hs => ?_
  have hvalid : s.validity.start < s.validity.stop := l.validFrom_lt_validTo hs
  simp [Period.meets_iff, hvalid, hp]

/-- The first slice starts before all others, and the last one ends after them. -/
theorem exists_bounds :
    ∃ first ∈ l.timeSlices, ∃ last ∈ l.timeSlices,
      l.validity? = some ⟨first.validFrom, last.validTo⟩ ∧
        ∀ s ∈ l.timeSlices, first.validFrom ≤ s.validFrom ∧ s.validTo ≤ last.validTo := by
  obtain ⟨first, rest, hfirst⟩ := List.exists_cons_of_ne_nil l.timeSlices_ne_nil
  have hmem : first ∈ l.timeSlices := by simp [hfirst]
  have hlast := List.getLast_mem l.timeSlices_ne_nil
  refine ⟨first, hmem, _, hlast, ?_, fun s hs => ⟨?_, ?_⟩⟩
  · simp [validity?, hfirst, List.getLast?_eq_some_getLast]
  · have horder := l.pairwise_validFrom_lt
    rw [hfirst, List.pairwise_cons] at horder
    rw [hfirst, List.mem_cons] at hs
    rcases hs with rfl | hs
    · exact Int.le_refl _
    · exact Int.le_of_lt (horder.1 s hs)
  · have hfollow := l.pairwise_timeSlices
    have hvalid := l.validFrom_lt_validTo hlast
    rw [← List.dropLast_concat_getLast l.timeSlices_ne_nil] at hs hfollow
    rw [List.pairwise_append] at hfollow
    rcases List.mem_append.1 hs with hs | hs
    · -- an earlier slice ends before the last one starts
      have hle := hfollow.2.2 s hs _ List.mem_cons_self
      rw [Instant.le_def] at hle ⊢
      rw [Instant.lt_def] at hvalid
      omega
    · rw [List.mem_singleton.1 hs]
      exact Int.le_refl _

/-- The span from the first start to the last end holds all slices, and so does no smaller
period. -/
theorem exists_validity :
    ∃ v, l.validity? = some v ∧ (∀ s ∈ l.timeSlices, v.covers s.validity = true) ∧
      ∀ p : Period, (∀ s ∈ l.timeSlices, p.covers s.validity = true) → p.covers v = true := by
  obtain ⟨first, hfirst, last, hlast, hvalidity, hbounds⟩ := l.exists_bounds
  refine ⟨_, hvalidity, fun s hs => ?_, fun p hp => ?_⟩
  · simp only [Period.covers, Bool.and_eq_true, decide_eq_true_eq]
    exact hbounds s hs
  · have hstart := hp first hfirst
    have hstop := hp last hlast
    simp only [Period.covers, Bool.and_eq_true, decide_eq_true_eq] at hstart hstop ⊢
    exact ⟨hstart.1, hstop.2⟩

end Slices

/-! ### Main result -/

/-- The location has the given slices one after the other, and finds them by their instants. -/
structure HoldsInSuccession (l : FormulaLocation) (given : List TimeSlice) : Prop where
  slices : l.timeSlices.Perm given
  order : l.timeSlices.Pairwise fun a b => a.validFrom < b.validFrom
  follow : l.timeSlices.Pairwise fun a b => a.validTo ≤ b.validFrom
  /-- The slice that is found at an instant is the only one that is valid there. -/
  sliceAt : ∀ t, l.timeSlices.filter (·.covers t) = (l.sliceAt? t).toList
  overlapping : ∀ p : Period, p.start < p.stop →
    l.slicesOverlapping p = l.timeSlices.filter fun s => s.validity.Meets p
  /-- The validity is the smallest period that holds all slices. -/
  validity : ∃ v, l.validity? = some v ∧ (∀ s ∈ given, v.covers s.validity = true) ∧
    ∀ p : Period, (∀ s ∈ given, p.covers s.validity = true) → p.covers v = true

/-- A location is built exactly from slices that are not empty and have no instants in common, of
which there is one at least, and has these in succession. -/
theorem build_in_succession (location : LocationId) (given : List TimeSlice) :
    ((∃ l, build location given = .ok l) ↔
        given ≠ [] ∧ (∀ s ∈ given, s.validFrom < s.validTo) ∧
          given.Pairwise fun a b => ¬ a.validity.Meets b.validity) ∧
      ∀ l, build location given = .ok l →
        l.location = location ∧ l.HoldsInSuccession given := by
  refine ⟨exists_build_iff.trans sliceDefects_eq_nil_iff_not_meets, fun l hl => ?_⟩
  obtain ⟨_, hlocation, hslices⟩ := build_eq_ok_iff.1 hl
  have hperm : l.timeSlices.Perm given := by
    rw [hslices]
    exact inForceOrder_perm given
  refine ⟨hlocation, hperm, l.pairwise_validFrom_lt, l.pairwise_timeSlices, l.filter_covers_eq,
    fun p hp => l.slicesOverlapping_eq hp, ?_⟩
  simpa only [hperm.mem_iff] using l.exists_validity

/-- Two slices of which the first one ends as the second one begins, given the other way round: they
are put in order, and the instant between them belongs to the second one. -/
theorem build_in_succession_adjacent :
    let first : TimeSlice := ⟨1, .valid, ⟨0, 0⟩, ⟨10, 0⟩, .operand (.constant .one)⟩
    let second : TimeSlice := ⟨2, .noData, ⟨10, 0⟩, ⟨20, 0⟩, .operand (.constant .one)⟩
    ∃ l, build .sample [second, first] = .ok l ∧ l.timeSlices = [first, second] ∧
      l.sliceAt? ⟨10, 0⟩ = some second ∧ l.validity? = some (.ofSeconds 0 20) := by
  intro first second
  obtain ⟨hbuild, hholds⟩ := build_in_succession .sample [second, first]
  obtain ⟨l, hl⟩ := hbuild.2 ⟨List.cons_ne_nil _ _, by decide, by decide⟩
  obtain ⟨_, hslices, horder, _, hsliceAt, _, _⟩ := hholds l hl
  have hrow : l.timeSlices = [first, second] := by
    exact eq_of_perm_of_validFrom_lt (hslices.trans (.swap _ _ _)) horder
      (List.pairwise_pair.2 (by decide))
  refine ⟨l, hl, hrow, ?_, by rw [validity?, hrow]; rfl⟩
  have hfound := hsliceAt ⟨10, 0⟩
  rw [hrow] at hfound
  exact Option.toList_eq_singleton_iff.1 hfound.symm

end FormulaLocation

end EnergyFormula
