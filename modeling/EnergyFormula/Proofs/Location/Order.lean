import EnergyFormula.Location.Basic
import EnergyFormula.Proofs.Location.Overlap

/-!
# Slices in force

Slices are without defects if there are any, none of them is empty, and they are apart from each
other (`sliceDefects_eq_nil_iff`).  In the order of their starts each of them then ends before the
next one starts (`FormulaLocation.pairwise_timeSlices`), and at most one of them is in force at an
instant (`FormulaLocation.sliceAt?_eq_some_iff`).
-/

namespace EnergyFormula

/-! ### Defects -/

theorem emptySliceDefects_eq_nil_iff {slices : List TimeSlice} :
    emptySliceDefects slices = [] ↔ ∀ s ∈ slices, s.validFrom < s.validTo := by
  rw [emptySliceDefects, List.filterMap_eq_nil_iff]
  refine forall₂_congr fun s _ => ?_
  split
  · rename_i h
    exact iff_of_true rfl h
  · rename_i h
    exact iff_of_false (by simp) h

/-- Every pair that the sweep names is a defect. -/
theorem overlapDefects_eq_nil_iff {slices : List TimeSlice} :
    overlapDefects slices = [] ↔ overlappingPairs (slices.map TimeSlice.validity) = [] := by
  rw [overlapDefects]
  refine filterMap_overlappingPairs_eq_nil_iff fun i j hi hj => ?_
  rw [List.length_map] at hi hj
  dsimp only
  rw [List.getElem?_eq_getElem hi, List.getElem?_eq_getElem hj]
  rfl

/-- Slices without defects: some, none of them empty, and each apart from the others. -/
theorem sliceDefects_eq_nil_iff {slices : List TimeSlice} :
    sliceDefects slices = [] ↔
      slices ≠ [] ∧ (∀ s ∈ slices, s.validFrom < s.validTo) ∧
        slices.Pairwise fun a b => a.validity.Apart b.validity := by
  unfold sliceDefects
  split
  · rename_i h
    rw [List.isEmpty_iff] at h
    exact iff_of_false (by simp) fun hs => hs.1 h
  · rename_i h
    rw [List.isEmpty_iff] at h
    rw [List.append_eq_nil_iff, emptySliceDefects_eq_nil_iff, overlapDefects_eq_nil_iff]
    constructor
    · rintro ⟨hvalid, hpairs⟩
      refine ⟨h, hvalid, List.pairwise_map.1 ((overlappingPairs_eq_nil_iff ?_).1 hpairs)⟩
      exact List.forall_mem_map.2 hvalid
    · rintro ⟨_, hvalid, hapart⟩
      exact ⟨hvalid, (overlappingPairs_eq_nil_iff (List.forall_mem_map.2 hvalid)).2
        (List.pairwise_map.2 hapart)⟩

/-! ### Order -/

/-- Slices without defects have none in any other order. -/
theorem sliceDefects_eq_nil_of_perm {slices slices' : List TimeSlice} (h : slices.Perm slices')
    (hdefects : sliceDefects slices = []) : sliceDefects slices' = [] := by
  rw [sliceDefects_eq_nil_iff] at hdefects ⊢
  obtain ⟨hne, hvalid, hapart⟩ := hdefects
  refine ⟨fun hnil => hne (hnil ▸ h).eq_nil, fun s hs => hvalid s (h.mem_iff.2 hs), ?_⟩
  exact (h.pairwise_iff fun hab => hab.symm).1 hapart

/-- Slices of different starts can be put in one order only. -/
theorem eq_of_perm_of_validFrom_lt {slices slices' : List TimeSlice} (h : slices.Perm slices')
    (horder : slices.Pairwise fun a b => a.validFrom < b.validFrom)
    (horder' : slices'.Pairwise fun a b => a.validFrom < b.validFrom) : slices = slices' := by
  refine h.eq_of_pairwise (fun a b _ _ hab hba => ?_) horder horder'
  rw [Instant.lt_def] at hab hba
  omega

theorem inForceOrder_perm (slices : List TimeSlice) : (inForceOrder slices).Perm slices :=
  List.mergeSort_perm _ _

theorem pairwise_inForceOrder (slices : List TimeSlice) :
    (inForceOrder slices).Pairwise fun a b => a.validFrom ≤ b.validFrom := by
  have htrans : ∀ a b c : TimeSlice, decide (a.validFrom ≤ b.validFrom) = true →
      decide (b.validFrom ≤ c.validFrom) = true → decide (a.validFrom ≤ c.validFrom) = true := by
    intro a b c hab hbc
    simp only [decide_eq_true_eq, Instant.le_def] at hab hbc ⊢
    omega
  have htotal : ∀ a b : TimeSlice,
      (decide (a.validFrom ≤ b.validFrom) || decide (b.validFrom ≤ a.validFrom)) = true := by
    intro a b
    simp only [Bool.or_eq_true, decide_eq_true_eq, Instant.le_def]
    omega
  exact (List.pairwise_mergeSort htrans htotal slices).imp fun h => of_decide_eq_true h

namespace FormulaLocation

variable (l : FormulaLocation)

theorem sliceDefects_timeSlices : sliceDefects l.timeSlices = [] := by
  obtain ⟨given, hdefects, hslices⟩ := l.sound
  rw [hslices]
  exact sliceDefects_eq_nil_of_perm (inForceOrder_perm given).symm hdefects

theorem timeSlices_ne_nil : l.timeSlices ≠ [] :=
  (sliceDefects_eq_nil_iff.1 l.sliceDefects_timeSlices).1

/-- No slice of a location is empty. -/
theorem validFrom_lt_validTo {s : TimeSlice} (hs : s ∈ l.timeSlices) :
    s.validFrom < s.validTo :=
  (sliceDefects_eq_nil_iff.1 l.sliceDefects_timeSlices).2.1 s hs

/-- The slices of a location follow each other: each of them ends before the next one starts. -/
theorem pairwise_timeSlices : l.timeSlices.Pairwise fun a b => a.validTo ≤ b.validFrom := by
  have hapart := (sliceDefects_eq_nil_iff.1 l.sliceDefects_timeSlices).2.2
  have hstart : l.timeSlices.Pairwise fun a b => a.validFrom ≤ b.validFrom := by
    obtain ⟨given, _, hslices⟩ := l.sound
    rw [hslices]
    exact pairwise_inForceOrder given
  -- of two slices that are apart the one with the earlier start ends first
  rw [List.pairwise_iff_forall_sublist] at hapart hstart ⊢
  intro a b hsub
  have hb := l.validFrom_lt_validTo (hsub.subset (List.mem_cons_of_mem a List.mem_cons_self))
  have h := (Period.apart_iff_of_start_le (hstart hsub) hb).1 (hapart hsub)
  rw [Instant.lt_def] at h
  exact Instant.le_def.2 (Int.not_lt.1 h)

/-- The slices of a location are in the order of their starts, of which no two are equal. -/
theorem pairwise_validFrom_lt : l.timeSlices.Pairwise fun a b => a.validFrom < b.validFrom := by
  refine l.pairwise_timeSlices.imp_of_mem fun {a b} hmem _ hab => ?_
  -- the earlier slice is not empty, so it starts before the later one
  have ha := l.validFrom_lt_validTo hmem
  rw [Instant.lt_def] at ha ⊢
  rw [Instant.le_def] at hab
  omega

/-- No instant is in two slices of a location. -/
theorem eq_of_covers {s s' : TimeSlice} (hs : s ∈ l.timeSlices) (hs' : s' ∈ l.timeSlices)
    {t : Instant} (h : s.covers t = true) (h' : s'.covers t = true) : s = s' := by
  have hapart : l.timeSlices.Pairwise fun a b =>
      a.covers t = true → b.covers t = true → a = b := by
    refine l.pairwise_timeSlices.imp fun {a b} hab ha hb => ?_
    have hapart : a.validity.Apart b.validity := .inl hab
    rw [TimeSlice.covers, hapart.not_contains ha] at hb
    cases hb
  refine hapart.forall_of_forall_of_flip (fun _ _ _ _ => rfl) ?_ hs hs' h h'
  exact hapart.imp fun hab hb ha => (hab ha hb).symm

/-- The slice in force at an instant is the only one that is valid there. -/
theorem sliceAt?_eq_some_iff {t : Instant} {s : TimeSlice} :
    l.sliceAt? t = some s ↔ s ∈ l.timeSlices ∧ s.covers t = true := by
  have hfound {s : TimeSlice} (h : l.sliceAt? t = some s) :
      s ∈ l.timeSlices ∧ s.covers t = true := by
    unfold sliceAt? at h
    have hcovers := List.find?_some h
    exact ⟨List.mem_of_find?_eq_some h, hcovers⟩
  constructor
  · exact hfound
  · rintro ⟨hs, hcovers⟩
    -- some slice is found, and there is only one to find
    have hsome : (l.sliceAt? t).isSome = true := List.find?_isSome.2 ⟨s, hs, hcovers⟩
    obtain ⟨s', hs'⟩ := Option.isSome_iff_exists.1 hsome
    rw [hs', l.eq_of_covers (hfound hs').1 hs (hfound hs').2 hcovers]

end FormulaLocation

/-- The market location of sample locations. -/
def LocationId.sample : LocationId :=
  .market ⟨"57685676748", by decide⟩

end EnergyFormula
