import EnergyFormula.Proofs.Conversion.Lowering
import EnergyFormula.Proofs.Validation.Resubmission
import EnergyFormula.Validation.Authored

/-!
# Authored slices are stored as they are lowered

Authored slices are lowered, written as documents, validated and put in order.  No step on this way
loses a slice or changes one (`LocationId.validateAuthored_stores`):

* `TimeSlice.forall₂_passes_iff`: what passes for the documents of slices are the slices.
* `LocationId.isAccepted_validate_document_iff`: which slices are accepted once they are written.
* `LocationId.location_validate_document`: an accepted location has the slices that were written,
  in the order of their starts.
-/

namespace EnergyFormula

/-! ### Slices that are written and validated -/

section Written

variable {location : LocationId} {row : List TimeSlice} {maxDepth : Nat}

theorem LocationId.checkId_document (location : LocationId) (slices : List SliceDocument) :
    (location.document slices).checkId = .valid location :=
  LocationDocument.checkId_eq_valid_iff.2 ⟨rfl, rfl⟩

/-- What passes for the documents of slices are the slices, if each of them is read. -/
theorem TimeSlice.forall₂_passes_iff {read : List TimeSlice} :
    List.Forall₂ (SliceDocument.Passes maxDepth) (row.map TimeSlice.document) read ↔
      read = row ∧ ∀ s ∈ row, (s.HasFourDigitYears ∧ s.formula.HasOperands) ∧
        s.validFrom < s.validTo ∧ s.formula.depth ≤ maxDepth := by
  induction row generalizing read with
  | nil => simp
  | cons s row ih =>
    rw [List.map_cons, List.forall₂_cons_left_iff, List.forall_mem_cons]
    constructor
    · rintro ⟨t, rest, ⟨ht, hlt, hdepth⟩, hrest, rfl⟩
      obtain ⟨rfl, hwritten⟩ := SliceDocument.reads_document_iff.1 ht
      obtain ⟨rfl, hrow⟩ := ih.1 hrest
      exact ⟨rfl, ⟨hwritten, hlt, hdepth⟩, hrow⟩
    · rintro ⟨rfl, ⟨hwritten, hlt, hdepth⟩, hrow⟩
      exact ⟨s, row, ⟨SliceDocument.reads_document_iff.2 ⟨rfl, hwritten⟩, hlt,
        hdepth⟩, ih.2 ⟨rfl, hrow⟩, rfl⟩

/-- A location that is accepted from the documents of slices has these slices, in the order of their
starts. -/
theorem LocationId.location_validate_document
    (h : ((location.document (row.map TimeSlice.document)).validate maxDepth).report.isAccepted
      = true) :
    ∃ l, ((location.document (row.map TimeSlice.document)).validate maxDepth).location = some l ∧
      l.location = location ∧ l.timeSlices.Perm row ∧
        l.timeSlices.Pairwise fun a b => a.validFrom < b.validFrom := by
  have hclean := LocationDocument.isAccepted_validate_iff_clean.1 h
  obtain ⟨l, hbuild, hl⟩ := LocationDocument.validate_of_clean hclean
  obtain ⟨hid, read, hread, hperm⟩ := LocationDocument.build_eq_ok hbuild
  refine ⟨l, by rw [hl], ?_, ?_, (hclean.standsFor hbuild).order⟩
  · rw [location.checkId_document] at hid
    exact (Checked.valid.inj hid).symm
  · obtain ⟨rfl, _⟩ := TimeSlice.forall₂_passes_iff.1 hread
    exact hperm

/-- Slices are accepted once they are written exactly if they are without defects, have different
ids, and each of them has bounds in years of four digits and a formula with operands that is not too
deep. -/
theorem LocationId.isAccepted_validate_document_iff :
    ((location.document (row.map TimeSlice.document)).validate maxDepth).report.isAccepted = true ↔
      sliceDefects row = [] ∧ (row.map TimeSlice.id).Nodup ∧
        ∀ s ∈ row, (s.HasFourDigitYears ∧ s.formula.HasOperands) ∧
          s.formula.depth ≤ maxDepth := by
  constructor
  · intro h
    have hclean := LocationDocument.isAccepted_validate_iff_clean.1 h
    obtain ⟨l, hbuild, _⟩ := LocationDocument.validate_of_clean hclean
    obtain ⟨_, read, hread, hperm⟩ := LocationDocument.build_eq_ok hbuild
    obtain ⟨rfl, hrow⟩ := TimeSlice.forall₂_passes_iff.1 hread
    refine ⟨?_, ?_, fun s hs => ⟨(hrow s hs).1, (hrow s hs).2.2⟩⟩
    · -- the order of the slices does not matter for their defects
      exact sliceDefects_eq_nil_of_perm hperm l.sliceDefects_timeSlices
    · exact (hperm.map TimeSlice.id).nodup_iff.1 (hclean.standsFor hbuild).distinct
  · rintro ⟨hdefects, hnodup, hrow⟩
    obtain ⟨_, hvalid, _⟩ := sliceDefects_eq_nil_iff.1 hdefects
    have hpass : List.Forall₂ (SliceDocument.Passes maxDepth) (row.map TimeSlice.document) row :=
      TimeSlice.forall₂_passes_iff.2
        ⟨rfl, fun s hs => ⟨(hrow s hs).1, hvalid s hs, (hrow s hs).2⟩⟩
    exact LocationDocument.isAccepted_validate_iff_clean.2 (LocationDocument.clean_of_passes
      (location.checkId_document _) hpass hdefects hnodup)

end Written

/-! ### Main result -/

/-- The slice is the authored one with its expression lowered. -/
structure AuthoredSlice.LowersTo (bindings : Bindings) (s : AuthoredSlice) (t : TimeSlice) :
    Prop where
  id : t.id = s.id
  quality : t.quality = s.quality
  validFrom : t.validFrom = s.validFrom
  validTo : t.validTo = s.validTo
  formula : s.expression.lower bindings = .ok t.formula

theorem AuthoredSlice.lower_eq_ok_iff {bindings : Bindings} {s : AuthoredSlice} {t : TimeSlice} :
    s.lower bindings = .ok t ↔ s.LowersTo bindings t := by
  rw [lower, bind_eq_ok]
  constructor
  · rintro ⟨f, hf, h⟩
    cases h
    exact ⟨rfl, rfl, rfl, rfl, hf⟩
  · rintro ⟨hid, hquality, hfrom, hto, hf⟩
    refine ⟨t.formula, hf, ?_⟩
    rw [← hid, ← hquality, ← hfrom, ← hto]
    rfl

theorem AuthoredSlice.lower_eq_error_iff {bindings : Bindings} {s : AuthoredSlice}
    {e : ConversionError} :
    s.lower bindings = .error e ↔ s.expression.lower bindings = .error e := by
  rw [lower, bind_eq_error]
  constructor
  · rintro (h | ⟨_, _, h⟩)
    · exact h
    · cases h
  · exact .inl

theorem AuthoredSlice.exists_lower_iff {bindings : Bindings} {s : AuthoredSlice} :
    (∃ t, s.lower bindings = .ok t) ↔ ∃ f, s.expression.lower bindings = .ok f := by
  constructor
  · rintro ⟨t, ht⟩
    exact ⟨t.formula, (lower_eq_ok_iff.1 ht).formula⟩
  · rintro ⟨f, hf⟩
    exact ⟨⟨s.id, s.quality, s.validFrom, s.validTo, f⟩, lower_eq_ok_iff.2 ⟨rfl, rfl, rfl, rfl, hf⟩⟩

/-- The validation of authored slices fails with the error of the first one that cannot be lowered.
If all of them are lowered it has an outcome, and an accepted location stands under the given id and
has, in the order of their starts, exactly the slices that were lowered. -/
theorem LocationId.validateAuthored_stores (location : LocationId) (slices : List AuthoredSlice)
    (bindings : Bindings) (maxDepth : Nat) :
    (∀ e, location.validateAuthored slices bindings maxDepth = .error e ↔
      ∃ before s after, slices = before ++ s :: after ∧
        (∀ b ∈ before, ∃ f, b.expression.lower bindings = .ok f) ∧
          s.expression.lower bindings = .error e) ∧
      ((∀ s ∈ slices, ∃ f, s.expression.lower bindings = .ok f) →
        ∃ v, location.validateAuthored slices bindings maxDepth = .ok v ∧
          (v.report.isAccepted = true →
            ∃ l row, v.location = some l ∧ l.location = location ∧
              List.Forall₂ (AuthoredSlice.LowersTo bindings) slices row ∧
                l.timeSlices.Perm row ∧
                  l.timeSlices.Pairwise fun a b => a.validFrom < b.validFrom)) := by
  constructor
  · intro e
    have hfirst : slices.mapM (fun s => s.lower bindings) = .error e ↔ _ := mapM_eq_error_iff
    simp only [AuthoredSlice.exists_lower_iff, AuthoredSlice.lower_eq_error_iff] at hfirst
    rw [validateAuthored, bind_eq_error, ← hfirst]
    constructor
    · rintro (h | ⟨_, _, h⟩)
      · exact h
      · cases h
    · exact .inl
  · intro hlower
    have hrow : ∀ s ∈ slices, ∃ t, s.LowersTo bindings t := by
      intro s hs
      obtain ⟨t, ht⟩ := AuthoredSlice.exists_lower_iff.2 (hlower s hs)
      exact ⟨t, AuthoredSlice.lower_eq_ok_iff.1 ht⟩
    obtain ⟨row, hrow⟩ := exists_forall₂ hrow
    have hmapM : slices.mapM (fun s => s.lower bindings) = .ok row :=
      mapM_eq_ok_iff.2 (hrow.imp fun _ _ h => AuthoredSlice.lower_eq_ok_iff.2 h)
    refine ⟨(location.document (row.map TimeSlice.document)).validate maxDepth, ?_, ?_⟩
    · rw [validateAuthored, hmapM]
      rfl
    · intro haccepted
      -- what is written for a lowered slice is read back without loss
      obtain ⟨l, hl, hid, hperm, horder⟩ := location_validate_document haccepted
      exact ⟨l, row, hl, hid, hrow, hperm, horder⟩

/-- The later one of two halves of a year, in which a tenth is left off. -/
def AuthoredSlice.secondHalf : AuthoredSlice where
  id := 2
  quality := .valid
  validFrom := ⟨1719792000, 0⟩
  validTo := ⟨1735689600, 0⟩
  expression := .apply (.extension "sub") [.series "x" 1, .series "loss" 1]

/-- The half before it, without data. -/
def AuthoredSlice.firstHalf : AuthoredSlice where
  id := 1
  quality := .noData
  validFrom := ⟨1704067200, 0⟩
  validTo := ⟨1719792000, 0⟩
  expression := .apply .groupedSum [.series "x" 0.5]

/-- A tenth under the name of a loss. -/
def Bindings.tenthLoss : Bindings :=
  [("loss", .constant .tenth)]

/-- `AuthoredSlice.secondHalf` with its expression lowered. -/
def TimeSlice.secondHalf : TimeSlice :=
  ⟨2, .valid, ⟨1719792000, 0⟩, ⟨1735689600, 0⟩,
    .sub (.variable .x) (.constant .tenth)⟩

/-- `AuthoredSlice.firstHalf` with its expression lowered. -/
def TimeSlice.firstHalf : TimeSlice :=
  ⟨1, .noData, ⟨1704067200, 0⟩, ⟨1719792000, 0⟩,
    .mul [.variable .x, .constant ⟨"0.5", 0.5, by decide, by decide, .inl rfl⟩]⟩

theorem TimeSlice.isAccepted_validate_halves (location : LocationId) :
    ((location.document ([secondHalf, firstHalf].map document)).validate 32).report.isAccepted
      = true := by
  have hoperands : secondHalf.formula.HasOperands ∧ firstHalf.formula.HasOperands := by
    constructor
    · refine Formula.hasOperands_of_nested (List.cons_ne_nil _ _) fun g hg => ?_
      simp [secondHalf, Formula.operands] at hg
    · refine Formula.hasOperands_of_nested (List.cons_ne_nil _ _) fun g hg => ?_
      simp [firstHalf, Formula.operands] at hg
  refine LocationId.isAccepted_validate_document_iff.2 ⟨?_, by decide, ?_⟩
  · refine sliceDefects_eq_nil_iff.2 ⟨List.cons_ne_nil _ _, ?_, ?_⟩
    · exact List.forall_mem_cons.2 ⟨by decide, List.forall_mem_singleton.2 (by decide)⟩
    · exact List.pairwise_pair.2 (.inr (by decide))
  · exact List.forall_mem_cons.2 ⟨⟨⟨by decide, hoperands.1⟩, by decide⟩,
      List.forall_mem_singleton.2 ⟨⟨by decide, hoperands.2⟩, by decide⟩⟩

/-- The later half is given first; the location has both of them in order. -/
theorem LocationId.validateAuthored_stores_halves :
    ∃ v l, (LocationId.market ⟨"57685676748", by decide⟩).validateAuthored
        [.secondHalf, .firstHalf] .tenthLoss 32 = .ok v ∧
      v.report.isAccepted = true ∧ v.location = some l ∧
        l.timeSlices = [.firstHalf, .secondHalf] := by
  have hlower : ∀ s ∈ [AuthoredSlice.secondHalf, .firstHalf],
      ∃ f, s.expression.lower .tenthLoss = .ok f :=
    List.forall_mem_cons.2 ⟨⟨_, rfl⟩, List.forall_mem_singleton.2 ⟨_, rfl⟩⟩
  obtain ⟨v, hv, hstores⟩ := (validateAuthored_stores (.market ⟨"57685676748", by decide⟩)
    [.secondHalf, .firstHalf] .tenthLoss 32).2 hlower
  have hmapM : [AuthoredSlice.secondHalf, .firstHalf].mapM (fun s => s.lower .tenthLoss) =
      .ok [TimeSlice.secondHalf, .firstHalf] := rfl
  have haccepted : v.report.isAccepted = true := by
    rw [validateAuthored, hmapM] at hv
    rw [← Except.ok.inj hv]
    exact TimeSlice.isAccepted_validate_halves _
  obtain ⟨l, row, hl, _, hrow, hperm, horder⟩ := hstores haccepted
  have hrow : [AuthoredSlice.secondHalf, .firstHalf].mapM (fun s => s.lower .tenthLoss) = .ok row :=
    mapM_eq_ok_iff.2 (hrow.imp fun _ _ h => AuthoredSlice.lower_eq_ok_iff.2 h)
  obtain rfl := Except.ok.inj (hmapM.symm.trans hrow)
  refine ⟨v, l, hv, haccepted, hl, ?_⟩
  -- there is only one way to put the two in order
  refine (hperm.trans (.swap _ _ _)).eq_of_pairwise (fun a b _ _ hab hba => ?_) horder
    (List.pairwise_pair.2 (by decide))
  rw [Instant.lt_def] at hab hba
  omega

end EnergyFormula
