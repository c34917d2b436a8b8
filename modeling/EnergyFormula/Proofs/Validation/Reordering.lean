import EnergyFormula.Proofs.Location.Succession
import EnergyFormula.Proofs.Validation.Authored

/-!
# The order of slices in a document

Slices that repeat an id are told by the first one in the document, overlaps by a sweep, and the
slices of a location are sorted.  None of these depends on the order in which the document gives the
slices: a document and its reorderings are accepted together, as the same location
(`LocationDocument.validate_reordered`).

* `inForceOrder_eq_of_perm`: without defects there is one order of their starts.
* `FormulaLocation.build_of_perm`: so the same location is built.
-/

namespace EnergyFormula

/-! ### Slices in any order -/

section Slices

variable {slices slices' : List TimeSlice}

/-- No two slices without defects start together. -/
theorem pairwise_inForceOrder_lt (h : sliceDefects slices = []) :
    (inForceOrder slices).Pairwise fun a b => a.validFrom < b.validFrom :=
  FormulaLocation.pairwise_validFrom_lt ⟨.sample, inForceOrder slices, slices, h, rfl⟩

/-- So there is only one order of their starts. -/
theorem inForceOrder_eq_of_perm (h : slices.Perm slices') (hdefects : sliceDefects slices = []) :
    inForceOrder slices = inForceOrder slices' := by
  have hperm : (inForceOrder slices).Perm (inForceOrder slices') :=
    (inForceOrder_perm slices).trans (h.trans (inForceOrder_perm slices').symm)
  exact eq_of_perm_of_validFrom_lt hperm (pairwise_inForceOrder_lt hdefects)
    (pairwise_inForceOrder_lt (sliceDefects_eq_nil_of_perm h hdefects))

/-- A location is built in the same way from slices in another order. -/
theorem FormulaLocation.build_of_perm {location : LocationId} {l : FormulaLocation}
    (h : slices.Perm slices') (hl : build location slices = .ok l) :
    build location slices' = .ok l := by
  obtain ⟨hdefects, hlocation, hslices⟩ := build_eq_ok_iff.1 hl
  refine build_eq_ok_iff.2 ⟨sliceDefects_eq_nil_of_perm h hdefects, hlocation, ?_⟩
  rw [hslices, inForceOrder_eq_of_perm h hdefects]

end Slices

/-! ### Documents -/

namespace LocationDocument

/-- The documents have the same ids, and the same slices in any two orders. -/
structure IsReordering (d d' : LocationDocument) : Prop where
  marketId : d.marketId = d'.marketId
  networkId : d.networkId = d'.networkId
  slices : d.givenSlices.Perm d'.givenSlices

section Reordering

variable {d d' : LocationDocument} {maxDepth : Nat} {l : FormulaLocation}

theorem IsReordering.symm (h : d.IsReordering d') : d'.IsReordering d :=
  ⟨h.marketId.symm, h.networkId.symm, h.slices.symm⟩

theorem IsReordering.checkId_eq (h : d.IsReordering d') : d.checkId = d'.checkId := by
  unfold checkId
  rw [h.marketId, h.networkId]

/-- A reordering of an accepted document is accepted as the same location. -/
theorem IsReordering.location_validate (h : d.IsReordering d')
    (hl : (d.validate maxDepth).location = some l) : (d'.validate maxDepth).location = some l := by
  obtain ⟨hclean, hbuild⟩ := clean_of_validate hl
  obtain ⟨hid, row, hrow, hperm⟩ := build_eq_ok hbuild
  -- the slices are read one by one, wherever they stand
  obtain ⟨row', hrow', hperm'⟩ := List.perm_comp_forall₂ h.slices.symm hrow
  have hslices : l.timeSlices.Perm row' := hperm.trans hperm'.symm
  have hnodup : (row'.map TimeSlice.id).Nodup :=
    (hslices.map TimeSlice.id).nodup_iff.1 (hclean.standsFor hbuild).distinct
  have hbuild' := FormulaLocation.build_of_perm hslices l.build_timeSlices
  exact (validate_of_build (h.checkId_eq ▸ hid) hrow' hbuild' hnodup).2

end Reordering

/-- A document is accepted in every order of its slices or in none, and always as the same
location. -/
theorem validate_reordered (d d' : LocationDocument) (maxDepth : Nat) (h : d.IsReordering d') :
    ((d'.validate maxDepth).report.isAccepted = true ↔
        (d.validate maxDepth).report.isAccepted = true) ∧
      ((d.validate maxDepth).report.isAccepted = true →
        ∃ l, (d.validate maxDepth).location = some l ∧
          (d'.validate maxDepth).location = some l) := by
  have hboth : ∀ l, (d'.validate maxDepth).location = some l ↔
      (d.validate maxDepth).location = some l :=
    fun l => ⟨h.symm.location_validate, h.location_validate⟩
  simp only [← isSome_location_validate, Option.isSome_iff_exists, hboth, and_self, true_and]
  exact id

/-- Two halves of a year are accepted as one location in either order. -/
theorem validate_reordered_halves :
    let id : LocationId := .market ⟨"57685676748", by decide⟩
    let d := id.document ([.secondHalf, .firstHalf].map TimeSlice.document)
    let d' := id.document ([.firstHalf, .secondHalf].map TimeSlice.document)
    d.IsReordering d' ∧
      ∃ l, (d.validate 32).location = some l ∧ (d'.validate 32).location = some l := by
  intro id d d'
  have hreordering : d.IsReordering d' := ⟨rfl, rfl, .swap _ _ _⟩
  have haccepted := TimeSlice.isAccepted_validate_halves id
  exact ⟨hreordering, (validate_reordered d d' 32 hreordering).2 haccepted⟩

end LocationDocument

end EnergyFormula
