import EnergyFormula.Proofs.Time.Text
import EnergyFormula.Proofs.Validation.Acceptance
import EnergyFormula.Proofs.Validation.Encoding

/-!
# Submitting an accepted location again

The document of a slice stands for the slice, and for nothing else: every literal, share and
identifier is written in a form that is read as the same value, and so is a bound in a year of four
digits (`SliceDocument.reads_document_iff`).  Validated again, an accepted location is accepted as it
is exactly if all of its bounds lie in such years (`LocationDocument.validate_document`).
-/

namespace EnergyFormula

/-! ### Slices -/

/-- Both bounds of the slice lie in years of four digits. -/
def TimeSlice.HasFourDigitYears (s : TimeSlice) : Prop :=
  s.validFrom.HasFourDigitYear ∧ s.validTo.HasFourDigitYear

instance (s : TimeSlice) : Decidable s.HasFourDigitYears :=
  inferInstanceAs (Decidable (s.validFrom.HasFourDigitYear ∧ s.validTo.HasFourDigitYear))

/-- Only the text of an instant in a year of four digits is read, and as this instant. -/
theorem Instant.parse_text_eq_ok_iff {t t' : Instant} :
    Instant.parse t.text = .ok t' ↔ t' = t ∧ t.HasFourDigitYear := by
  constructor
  · intro h
    have hyear : t.HasFourDigitYear := by
      by_contra hyear
      rw [Instant.parse_text_of_signed hyear] at h
      cases h
    rw [Instant.parse_text hyear] at h
    exact ⟨(Except.ok.inj h).symm, hyear⟩
  · rintro ⟨rfl, hyear⟩
    exact Instant.parse_text hyear

/-- The document of a slice stands for the slice, and for no other one. -/
theorem SliceDocument.reads_document_iff {s t : TimeSlice} :
    s.document.Reads t ↔ t = s ∧ s.HasFourDigitYears ∧ s.formula.HasOperands := by
  constructor
  · rintro ⟨hid, ⟨_, ⟨⟩, hquality⟩, ⟨_, ⟨⟩, hfrom⟩, ⟨_, ⟨⟩, hto⟩, ⟨_, ⟨⟩, hformula⟩⟩
    obtain ⟨hfrom, hfromYear⟩ := Instant.parse_text_eq_ok_iff.1 hfrom
    obtain ⟨hto, htoYear⟩ := Instant.parse_text_eq_ok_iff.1 hto
    obtain ⟨hformula, hops⟩ := Formula.reads_document_iff.1 hformula
    rw [SliceQuality.ofText?_text] at hquality
    obtain ⟨id, quality, validFrom, validTo, formula⟩ := t
    cases hid
    cases hquality
    cases hfrom
    cases hto
    cases hformula
    exact ⟨rfl, ⟨hfromYear, htoYear⟩, hops⟩
  · rintro ⟨rfl, ⟨hfrom, hto⟩, hops⟩
    exact
      { id := rfl
        quality := ⟨_, rfl, SliceQuality.ofText?_text t.quality⟩
        validFrom := ⟨_, rfl, Instant.parse_text hfrom⟩
        validTo := ⟨_, rfl, Instant.parse_text hto⟩
        formula := ⟨_, rfl, t.formula.reads_document hops⟩ }

/-- The document of a slice passes its check only if both bounds are read. -/
theorem SliceDocument.Passes.hasFourDigitYears {maxDepth : Nat} {s s' : TimeSlice}
    (h : s.document.Passes maxDepth s') : s.HasFourDigitYears :=
  (SliceDocument.reads_document_iff.1 h.1).2.1

/-- A slice that passed its check passes it again if its bounds lie in years of four digits. -/
theorem SliceDocument.Passes.document {maxDepth : Nat} {d : SliceDocument} {s : TimeSlice}
    (h : d.Passes maxDepth s) (hyears : s.HasFourDigitYears) : s.document.Passes maxDepth s := by
  obtain ⟨hread, hlt, hdepth⟩ := h
  obtain ⟨_, _, hformula⟩ := hread.formula
  have hops : s.formula.HasOperands := fun _ hpart => hformula.operands_ne_nil_of_part hpart
  exact ⟨SliceDocument.reads_document_iff.2 ⟨rfl, hyears, hops⟩, hlt, hdepth⟩

/-! ### Slices among each other -/

/-- Slices with different ids have no duplicate findings. -/
theorem duplicateFindings_eq_nil {slices : List SliceDocument} {row : List TimeSlice}
    (hread : List.Forall₂ SliceDocument.Reads slices row) (hnodup : (row.map TimeSlice.id).Nodup)
    (index : Nat) : duplicateFindings slices index = [] := by
  obtain ⟨hlength, hread⟩ := List.forall₂_iff_get.1 hread
  have hne : row.Pairwise fun a b => a.id ≠ b.id := List.pairwise_map.1 hnodup
  unfold duplicateFindings
  split
  · rename_i id hid
    obtain ⟨d, hindex, hdid⟩ := Option.bind_eq_some_iff.1 hid
    obtain ⟨hlt, rfl⟩ := List.getElem?_eq_some_iff.1 hindex
    rw [if_neg]
    intro hany
    -- an earlier slice has the same id
    obtain ⟨i, hi, d, hd, hearlier⟩ := any_take_iff.1 hany
    obtain ⟨hlt', rfl⟩ := List.getElem?_eq_some_iff.1 hd
    have hi' : i < row.length := by omega
    have hfirst : slices[i].id = some row[i].id := (hread i hlt' hi').id
    have hsecond : slices[index].id = some row[index].id := (hread index hlt (by omega)).id
    refine List.pairwise_iff_getElem.1 hne i index hi' (by omega) (by omega) ?_
    rw [hfirst] at hearlier
    rw [hsecond] at hdid
    exact Option.some.inj (hearlier.trans hdid.symm)
  · rfl

/-- Slices that are apart have no overlap findings. -/
theorem overlapFindings_eq_nil {slices : List SliceDocument} (h : conflicts slices = [])
    (index : Nat) : overlapFindings slices index = [] := by
  rw [overlapFindings, h]
  rfl

namespace FormulaLocation

variable (l : FormulaLocation)

/-- The slices of a location are in order already. -/
theorem inForceOrder_timeSlices : inForceOrder l.timeSlices = l.timeSlices := by
  refine List.mergeSort_of_pairwise ?_
  obtain ⟨given, _, hslices⟩ := l.sound
  rw [hslices]
  exact (pairwise_inForceOrder given).imp fun h => decide_eq_true h

/-- A location is built again from its own slices. -/
theorem build_timeSlices : build l.location l.timeSlices = .ok l :=
  build_eq_ok_iff.2 ⟨l.sliceDefects_timeSlices, rfl, l.inForceOrder_timeSlices.symm⟩

end FormulaLocation

/-! ### Locations -/

namespace LocationDocument

variable {d : LocationDocument} {maxDepth : Nat} {l : FormulaLocation}

/-- A document is clean if its id is read and its slices pass, without defects among each other and
with different ids. -/
theorem clean_of_passes {id : LocationId} {row : List TimeSlice} (hid : d.checkId = .valid id)
    (hpass : List.Forall₂ (SliceDocument.Passes maxDepth) d.givenSlices row)
    (hdefects : sliceDefects row = []) (hnodup : (row.map TimeSlice.id).Nodup) :
    d.Clean maxDepth := by
  obtain ⟨hne, hvalid, hapart⟩ := sliceDefects_eq_nil_iff.1 hdefects
  have hread := hpass.imp fun _ _ hs => hs.1
  have hempty : d.emptyFindings = [] := by
    refine if_neg fun h => hne ?_
    rw [List.isEmpty_iff] at h
    rw [h] at hpass
    exact List.forall₂_nil_left_iff.1 hpass
  have hconflicts : conflicts d.givenSlices = [] := by
    rw [conflicts_eq_nil_iff, filterMap_window?_eq hread, overlappingPairs_eq_nil_iff]
    · exact List.pairwise_map.2 hapart
    · exact List.forall_mem_map.2 hvalid
  have hlocation : d.locationFindings = [] :=
    List.append_eq_nil_iff.2 ⟨Checked.findings_eq_nil_iff.2 ⟨id, hid⟩, hempty⟩
  refine ⟨hlocation, forall_valid_sliceReports_iff.2 fun i a ha => ?_⟩
  obtain ⟨s, _, hs⟩ := exists_right_of_forall₂ hpass a (List.mem_of_getElem? ha)
  have hcheck : (a.check maxDepth i).findings = [] :=
    Checked.findings_eq_nil_iff.2 ⟨s, SliceDocument.check_eq_valid_iff.2 hs⟩
  rw [sliceFindings, hcheck, duplicateFindings_eq_nil hread hnodup,
    overlapFindings_eq_nil hconflicts]
  rfl

/-- Such a document is accepted as the location that is built from the slices. -/
theorem validate_of_build {row : List TimeSlice} (hid : d.checkId = .valid l.location)
    (hpass : List.Forall₂ (SliceDocument.Passes maxDepth) d.givenSlices row)
    (hbuild : FormulaLocation.build l.location row = .ok l)
    (hnodup : (row.map TimeSlice.id).Nodup) :
    (d.validate maxDepth).report.isAccepted = true ∧
      (d.validate maxDepth).location = some l := by
  have hdefects := (FormulaLocation.build_eq_ok_iff.1 hbuild).1
  obtain ⟨l', hbuild', hl'⟩ := validate_of_clean (clean_of_passes hid hpass hdefects hnodup)
  have hsame : d.build maxDepth = some (.ok l) := by
    rw [build, hid, typedSlices?_eq_some_iff.2 hpass]
    exact congrArg some hbuild
  rw [hsame] at hbuild'
  cases hbuild'
  rw [hl']
  exact ⟨rfl, rfl⟩

/-- The slices of a location are in order, and the location is built from them again. -/
theorem validate_of_passes (hid : d.checkId = .valid l.location)
    (hpass : List.Forall₂ (SliceDocument.Passes maxDepth) d.givenSlices l.timeSlices)
    (hnodup : (l.timeSlices.map TimeSlice.id).Nodup) :
    (d.validate maxDepth).report.isAccepted = true ∧
      (d.validate maxDepth).location = some l :=
  validate_of_build hid hpass l.build_timeSlices hnodup

/-- A document that is accepted is clean, and its location is the one that is built from it. -/
theorem clean_of_validate (h : (d.validate maxDepth).location = some l) :
    d.Clean maxDepth ∧ d.build maxDepth = some (.ok l) := by
  by_cases hclean : d.Clean maxDepth
  · obtain ⟨l', hbuild, hl'⟩ := validate_of_clean hclean
    rw [hl'] at h
    cases h
    exact ⟨hclean, hbuild⟩
  · rw [validate_of_not_clean hclean] at h
    cases h

end LocationDocument

/-- All bounds of the location lie in years of four digits. -/
def FormulaLocation.HasFourDigitYears (l : FormulaLocation) : Prop :=
  ∀ s ∈ l.timeSlices, s.HasFourDigitYears

instance (l : FormulaLocation) : Decidable l.HasFourDigitYears :=
  inferInstanceAs (Decidable (∀ s ∈ l.timeSlices, s.HasFourDigitYears))

/-- The document of an accepted location is accepted as the same location if all bounds lie in years
of four digits.  With any other bound it is rejected. -/
theorem LocationDocument.validate_document (d : LocationDocument) (maxDepth : Nat)
    (l : FormulaLocation) (h : (d.validate maxDepth).location = some l) :
    (l.HasFourDigitYears → (l.document.validate maxDepth).report.isAccepted = true ∧
        (l.document.validate maxDepth).location = some l) ∧
      (¬ l.HasFourDigitYears → (l.document.validate maxDepth).report.isAccepted = false ∧
        (l.document.validate maxDepth).location = none) := by
  obtain ⟨hclean, hbuild⟩ := clean_of_validate h
  constructor
  · intro hyears
    obtain ⟨_, row, hrow, hperm⟩ := build_eq_ok hbuild
    refine validate_of_passes (checkId_eq_valid_iff.2 ⟨rfl, rfl⟩) ?_
      (hclean.standsFor hbuild).distinct
    refine List.forall₂_map_left_iff.2 (List.forall₂_same.2 fun s hs => ?_)
    obtain ⟨_, _, hpass⟩ := exists_left_of_forall₂ hrow s (hperm.mem_iff.1 hs)
    exact hpass.document (hyears s hs)
  · intro hyears
    have hrejected : ¬ l.document.Clean maxDepth := by
      intro hagain
      obtain ⟨l', hbuild', _⟩ := validate_of_clean hagain
      obtain ⟨_, row, hrow, _⟩ := build_eq_ok hbuild'
      refine hyears fun s hs => ?_
      obtain ⟨_, _, hpass⟩ := exists_right_of_forall₂ hrow s.document (List.mem_map_of_mem hs)
      exact hpass.hasFourDigitYears
    rw [validate_of_not_clean hrejected]
    exact ⟨rfl, rfl⟩

/-- A slice with the constant one until the year 9999 ends an hour behind universal time. -/
def SliceDocument.untilYearEnd : SliceDocument where
  id := some 1
  quality := some "valid"
  validFrom := some "2024-01-01T00:00:00Z"
  validTo := some "9999-12-31T23:59:59-01:00"
  formula := some (Formula.operand (.constant .one)).document

/-- The location with this slice. -/
def LocationDocument.untilYearEnd : LocationDocument :=
  ⟨some "57685676748", none, some [SliceDocument.untilYearEnd]⟩

/-- The slice that `SliceDocument.untilYearEnd` stands for. -/
def TimeSlice.untilYearEnd : TimeSlice :=
  ⟨1, .valid, ⟨1704067200, 0⟩, ⟨253402304399, 0⟩,
    .operand (.constant .one)⟩

/-- The location that `LocationDocument.untilYearEnd` stands for. -/
def FormulaLocation.untilYearEnd : FormulaLocation where
  location := .sample
  timeSlices := [TimeSlice.untilYearEnd]
  sound := ⟨[TimeSlice.untilYearEnd], sliceDefects_eq_nil_iff.2
    ⟨List.cons_ne_nil _ _, by decide, List.pairwise_singleton _ _⟩,
    (List.mergeSort_singleton TimeSlice.untilYearEnd).symm⟩

theorem LocationDocument.location_validate_untilYearEnd :
    (untilYearEnd.validate 32).location = some FormulaLocation.untilYearEnd := by
  have hread : SliceDocument.untilYearEnd.Reads TimeSlice.untilYearEnd :=
    { id := rfl
      quality := ⟨"valid", rfl, by decide⟩
      validFrom := ⟨"2024-01-01T00:00:00Z", rfl, rfl⟩
      validTo := ⟨"9999-12-31T23:59:59-01:00", rfl, rfl⟩
      formula := ⟨_, rfl, .operand (.constant rfl)⟩ }
  have hpass : List.Forall₂ (SliceDocument.Passes 32) untilYearEnd.givenSlices
      FormulaLocation.untilYearEnd.timeSlices :=
    .cons ⟨hread, by decide, by decide⟩ .nil
  exact (validate_of_passes (checkId_eq_valid_iff.2 ⟨rfl, rfl⟩) hpass (List.pairwise_singleton _ 1)).2

/-- In universal time the location lasts until the year 10000, and its own document is rejected. -/
theorem LocationDocument.validate_document_untilYearEnd :
    (untilYearEnd.validate 32).location = some FormulaLocation.untilYearEnd ∧
      ¬ FormulaLocation.untilYearEnd.HasFourDigitYears ∧
        (FormulaLocation.untilYearEnd.document.validate 32).report.isAccepted = false := by
  have hslice : ¬ TimeSlice.untilYearEnd.HasFourDigitYears := by decide
  have hyears : ¬ FormulaLocation.untilYearEnd.HasFourDigitYears :=
    fun h => hslice (h _ List.mem_cons_self)
  have h := untilYearEnd.validate_document 32 _ location_validate_untilYearEnd
  exact ⟨location_validate_untilYearEnd, hyears, (h.2 hyears).1⟩

end EnergyFormula
