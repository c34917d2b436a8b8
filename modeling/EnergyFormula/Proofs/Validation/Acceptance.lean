import EnergyFormula.Calculation.Basic
import EnergyFormula.Proofs.Location.Order
import EnergyFormula.Proofs.Rows
import EnergyFormula.Proofs.Validation.Reading

/-!
# Acceptance

A location is accepted exactly if its report is empty, and then it is what its document stands for.

* `SliceDocument.check_eq_valid_iff`: a slice passes exactly if it is read, not empty, and its
  formula not too deep.
* `conflicts_eq_nil_iff`, `nodup_of_duplicateFindings`: slices without findings among each other are
  apart and have different ids.
* `LocationDocument.exists_build`: without any finding a location is built, so that the last step of
  the validation never fails.
-/

namespace EnergyFormula

/-! ### Slices -/

/-- The document stands for the slice. -/
structure SliceDocument.Reads (d : SliceDocument) (s : TimeSlice) : Prop where
  id : d.id = some s.id
  quality : ∃ text, d.quality = some text ∧ SliceQuality.ofText? text = some s.quality
  validFrom : ∃ text, d.validFrom = some text ∧ Instant.parse text = .ok s.validFrom
  validTo : ∃ text, d.validTo = some text ∧ Instant.parse text = .ok s.validTo
  formula : ∃ f, d.formula = some f ∧ f.Reads s.formula

namespace SliceDocument

variable {d : SliceDocument} {maxDepth index : Nat}

theorem checkId_eq_valid_iff {id : Int} : d.checkId = .valid id ↔ d.id = some id := by
  unfold checkId
  cases d.id with
  | none => simp [Checked.fail_ne_valid]
  | some id => simp

theorem checkQuality_eq_valid_iff {q : SliceQuality} :
    d.checkQuality = .valid q ↔
      ∃ text, d.quality = some text ∧ SliceQuality.ofText? text = some q := by
  unfold checkQuality
  cases d.quality with
  | none => simp [Checked.fail_ne_valid]
  | some text =>
    cases h : SliceQuality.ofText? text with
    | none => simp [h, Checked.fail_ne_valid]
    | some q => simp [h]

theorem checkBound_eq_valid_iff {field : String} {bound : Option String} {t : Instant} :
    checkBound field bound = .valid t ↔
      ∃ text, bound = some text ∧ Instant.parse text = .ok t := by
  unfold checkBound
  cases bound with
  | none => simp [Checked.fail_ne_valid]
  | some text => simp [Checked.within_eq_valid_iff, Checked.ofExcept_eq_valid_iff]

theorem checkValidity_eq_valid_iff {p : Period} :
    d.checkValidity index = .valid p ↔
      (∃ text, d.validFrom = some text ∧ Instant.parse text = .ok p.start) ∧
        (∃ text, d.validTo = some text ∧ Instant.parse text = .ok p.stop) ∧
          p.start < p.stop := by
  simp only [checkValidity, Checked.andThen_eq_valid_iff, Checked.seq_eq_valid_iff,
    Checked.map_eq_valid_iff, checkBound_eq_valid_iff]
  constructor
  · rintro ⟨_, ⟨_, stop, ⟨start, hfrom, rfl⟩, hto, rfl⟩, h⟩
    split at h
    · rename_i hlt
      cases h
      exact ⟨hfrom, hto, hlt⟩
    · exact absurd h Checked.fail_ne_valid
  · rintro ⟨hfrom, hto, hlt⟩
    exact ⟨p, ⟨_, p.stop, ⟨p.start, hfrom, rfl⟩, hto, rfl⟩, if_pos hlt⟩

theorem checkFormula_eq_valid_iff {f : Formula} :
    d.checkFormula maxDepth = .valid f ↔
      (∃ g, d.formula = some g ∧ g.Reads f) ∧ f.depth ≤ maxDepth := by
  unfold checkFormula
  cases d.formula with
  | none => simp [Checked.fail_ne_valid]
  | some g => simp [FormulaDocument.validate_eq_valid_iff]

/-- A slice passes its check exactly if it is read, not empty, and its formula not too deep. -/
theorem check_eq_valid_iff {s : TimeSlice} :
    d.check maxDepth index = .valid s ↔
      d.Reads s ∧ s.validFrom < s.validTo ∧ s.formula.depth ≤ maxDepth := by
  simp only [check, Checked.within_eq_valid_iff, Checked.seq_eq_valid_iff,
    Checked.map_eq_valid_iff, checkId_eq_valid_iff, checkQuality_eq_valid_iff,
    checkValidity_eq_valid_iff, checkFormula_eq_valid_iff]
  constructor
  · rintro ⟨_, f, ⟨_, p, ⟨_, q, ⟨id, hid, rfl⟩, hq, rfl⟩, ⟨hfrom, hto, hlt⟩, rfl⟩, ⟨hf, hdepth⟩,
      rfl⟩
    exact ⟨⟨hid, hq, hfrom, hto, hf⟩, hlt, hdepth⟩
  · rintro ⟨⟨hid, hq, hfrom, hto, hf⟩, hlt, hdepth⟩
    exact ⟨_, _, ⟨_, s.validity, ⟨_, _, ⟨_, hid, rfl⟩, hq, rfl⟩, ⟨hfrom, hto, hlt⟩, rfl⟩,
      ⟨hf, hdepth⟩, rfl⟩

theorem Reads.window?_eq {s : TimeSlice} (h : d.Reads s) : d.window? = some s.validity := by
  obtain ⟨a, ha, hfrom⟩ := h.validFrom
  obtain ⟨b, hb, hto⟩ := h.validTo
  simp [window?, ha, hb, hfrom, hto, Except.toOption, TimeSlice.validity]

end SliceDocument

/-! ### Slices among each other -/

/-- The place of a slice with two bounds is a place in the document. -/
theorem place_lt_of_mem_boundedSlices {slices : List SliceDocument} {a : PlacedPeriod}
    (h : a ∈ boundedSlices slices) : a.place < slices.length := by
  obtain ⟨⟨d, index⟩, hmem, ha⟩ := List.mem_filterMap.1 h
  obtain ⟨p, _, rfl⟩ := Option.map_eq_some_iff.1 ha
  exact (List.mem_zipIdx' hmem).1

theorem map_period_boundedSlices (slices : List SliceDocument) :
    (boundedSlices slices).map PlacedPeriod.period = slices.filterMap SliceDocument.window? := by
  have hplace : ∀ x : SliceDocument × Nat,
      (x.1.window?.map fun p => PlacedPeriod.mk x.2 p).map PlacedPeriod.period
        = x.1.window? := by
    intro x
    rw [Option.map_map]
    exact Option.map_id_apply
  calc (boundedSlices slices).map PlacedPeriod.period
      = slices.zipIdx.filterMap fun x => x.1.window? := by
        rw [boundedSlices, List.map_filterMap]
        exact congrArg (List.filterMap · slices.zipIdx) (funext hplace)
    _ = (slices.zipIdx.map Prod.fst).filterMap SliceDocument.window? := by
        rw [List.filterMap_map]
        rfl
    _ = slices.filterMap SliceDocument.window? := by
        rw [List.zipIdx_map_fst]

/-- Slices without conflicts are those of which the sweep names no pair. -/
theorem conflicts_eq_nil_iff {slices : List SliceDocument} :
    conflicts slices = [] ↔ overlappingPairs (slices.filterMap SliceDocument.window?) = [] := by
  rw [conflicts, ← map_period_boundedSlices]
  refine filterMap_overlappingPairs_eq_nil_iff fun i j hi hj => ?_
  rw [List.length_map] at hi hj
  dsimp only
  rw [List.getElem?_eq_getElem hi, List.getElem?_eq_getElem hj]
  rfl

/-- A conflict is a finding of both slices. -/
theorem conflicts_eq_nil_of_overlapFindings {slices : List SliceDocument}
    (h : ∀ index < slices.length, overlapFindings slices index = []) : conflicts slices = [] := by
  rw [List.eq_nil_iff_forall_not_mem]
  rintro ⟨i, j⟩ hij
  have hlt : i < slices.length := by
    obtain ⟨⟨a, b⟩, _, hab⟩ := List.mem_filterMap.1 hij
    dsimp only at hab
    split at hab
    · rename_i first second hfirst _
      cases hab
      exact place_lt_of_mem_boundedSlices (List.mem_of_getElem? hfirst)
    · cases hab
  -- so the first of the two has a finding
  have hnone := List.filterMap_eq_nil_iff.1 (h i hlt) (i, j) hij
  simp at hnone

/-- The search for an earlier slice with an id. -/
theorem any_take_iff {slices : List SliceDocument} {i : Nat} {id : Int} :
    ((slices.take i).any fun d => d.id = some id) = true ↔
      ∃ k < i, ∃ d, slices[k]? = some d ∧ d.id = some id := by
  simp only [List.any_eq_true, List.mem_take_iff_getElem, decide_eq_true_eq]
  constructor
  · rintro ⟨d, ⟨k, hk, rfl⟩, hid⟩
    exact ⟨k, by omega, _, List.getElem?_eq_getElem (by omega), hid⟩
  · rintro ⟨k, hk, d, hd, hid⟩
    obtain ⟨hlt, rfl⟩ := List.getElem?_eq_some_iff.1 hd
    exact ⟨_, ⟨k, by omega, rfl⟩, hid⟩

/-- Slices without duplicate findings have different ids. -/
theorem nodup_of_duplicateFindings {slices : List SliceDocument} {row : List TimeSlice}
    (hread : List.Forall₂ SliceDocument.Reads slices row)
    (h : ∀ index < slices.length, duplicateFindings slices index = []) :
    (row.map TimeSlice.id).Nodup := by
  obtain ⟨hlen, hread⟩ := List.forall₂_iff_get.1 hread
  refine List.pairwise_iff_getElem.2 fun i j hi hj hij heq => ?_
  rw [List.length_map] at hi hj
  rw [List.getElem_map, List.getElem_map] at heq
  have hid : (slices[j]? >>= SliceDocument.id) = some row[j].id := by
    rw [List.getElem?_eq_getElem (hlen ▸ hj)]
    exact (hread j (hlen ▸ hj) hj).id
  -- the earlier slice stands in the way of the later one
  have hany : ((slices.take j).any fun d => d.id = some row[j].id) = true := by
    refine any_take_iff.2 ⟨i, hij, slices[i], List.getElem?_eq_getElem (hlen ▸ hi), ?_⟩
    rw [← heq]
    exact (hread i (hlen ▸ hi) hi).id
  have hnone := h j (hlen ▸ hj)
  rw [duplicateFindings, hid] at hnone
  dsimp only at hnone
  rw [if_pos hany] at hnone
  cases hnone

/-! ### The slices of a location -/

/-- The slice is read, not empty, and its formula not too deep. -/
def SliceDocument.Passes (maxDepth : Nat) (d : SliceDocument) (s : TimeSlice) : Prop :=
  d.Reads s ∧ s.validFrom < s.validTo ∧ s.formula.depth ≤ maxDepth

theorem SliceDocument.value?_check_eq_some_iff {d : SliceDocument} {maxDepth index : Nat}
    {s : TimeSlice} : (d.check maxDepth index).value? = some s ↔ d.Passes maxDepth s := by
  have hvalue (x : Checked TimeSlice) : x.value? = some s ↔ x = .valid s := by
    cases x <;> simp [Checked.value?]
  rw [hvalue, check_eq_valid_iff]
  rfl

namespace LocationDocument

variable {d : LocationDocument} {maxDepth : Nat}

theorem typedSlices?_eq_some_iff {row : List TimeSlice} :
    d.typedSlices? maxDepth = some row ↔
      List.Forall₂ (SliceDocument.Passes maxDepth) d.givenSlices row := by
  -- the place of a slice shows in its findings only
  have hplace : (d.givenSlices.mapIdx fun index s => (s.check maxDepth index).value?)
      = d.givenSlices.map fun s => (s.check maxDepth 0).value? := by
    refine List.ext_getElem? fun i => ?_
    rw [List.getElem?_mapIdx, List.getElem?_map]
    refine Option.map_congr fun s _ => Option.ext fun t => ?_
    rw [SliceDocument.value?_check_eq_some_iff, SliceDocument.value?_check_eq_some_iff]
  rw [typedSlices?, mapM_id_eq_some_iff, hplace, ← List.forall₂_eq_eq_eq,
    List.forall₂_map_left_iff, List.forall₂_map_right_iff]
  simp only [SliceDocument.value?_check_eq_some_iff]

/-- The id of a location is read exactly from the only field that is present. -/
theorem checkId_eq_valid_iff {id : LocationId} :
    d.checkId = .valid id ↔ d.marketId = id.marketText? ∧ d.networkId = id.networkText? := by
  have hread {kind : IdentifierKind} {make : Identifier kind → LocationId} {field s : String} :
      (make <$> Checked.ofExcept Defect.malformed (Identifier.parse kind s)).within
          [.field field] = .valid id ↔ ∃ n, n.text = s ∧ make n = id := by
    simp only [Checked.within_eq_valid_iff, Checked.map_eq_valid_iff,
      Checked.ofExcept_eq_valid_iff, Identifier.parse_eq_ok_iff]
  unfold checkId
  rcases d.marketId with _ | market <;> rcases d.networkId with _ | network
  · cases id <;> simp [Checked.fail_ne_valid, LocationId.marketText?, LocationId.networkText?]
  · rw [hread]
    cases id <;> simp [LocationId.marketText?, LocationId.networkText?, eq_comm]
  · rw [hread]
    cases id <;> simp [LocationId.marketText?, LocationId.networkText?, eq_comm]
  · cases id <;> simp [Checked.fail_ne_valid, LocationId.marketText?, LocationId.networkText?]

/-- A report of a slice is valid exactly without findings. -/
theorem forall_valid_sliceReports_iff :
    (∀ r ∈ d.sliceReports maxDepth, r.valid = true) ↔
      ∀ i s, d.givenSlices[i]? = some s → sliceFindings d.givenSlices maxDepth i s = [] := by
  rw [sliceReports]
  constructor
  · intro h i s hs
    obtain ⟨hi, rfl⟩ := List.getElem?_eq_some_iff.1 hs
    have hvalid := h _ (List.mem_mapIdx.2 ⟨i, hi, rfl⟩)
    simpa [SliceReport.of] using hvalid
  · intro h r hr
    obtain ⟨i, hi, rfl⟩ := List.mem_mapIdx.1 hr
    simp [SliceReport.of, h i _ (List.getElem?_eq_getElem hi)]

end LocationDocument

/-! ### Building the location -/

/-- The periods of slices that are read are those of their documents. -/
theorem filterMap_window?_eq {slices : List SliceDocument} {row : List TimeSlice}
    (h : List.Forall₂ SliceDocument.Reads slices row) :
    slices.filterMap SliceDocument.window? = row.map TimeSlice.validity := by
  induction h with
  | nil => rfl
  | cons hs _ ih => rw [List.filterMap_cons_some hs.window?_eq, ih, List.map_cons]

/-- Slices that pass, one by one and among each other, have no defects. -/
theorem sliceDefects_eq_nil_of_passes {maxDepth : Nat} {slices : List SliceDocument}
    {row : List TimeSlice} (h : List.Forall₂ (SliceDocument.Passes maxDepth) slices row)
    (hne : slices ≠ []) (hconflicts : conflicts slices = []) : sliceDefects row = [] := by
  have hvalid : ∀ s ∈ row, s.validFrom < s.validTo :=
    forall_mem_of_forall₂ (fun _ _ hs => hs.2.1) h
  refine sliceDefects_eq_nil_iff.2 ⟨?_, hvalid, ?_⟩
  · rintro rfl
    exact hne (List.forall₂_nil_right_iff.1 h)
  · rw [conflicts_eq_nil_iff, filterMap_window?_eq (h.imp fun _ _ hs => hs.1),
      overlappingPairs_eq_nil_iff (List.forall_mem_map.2 hvalid)] at hconflicts
    exact List.pairwise_map.1 hconflicts

namespace LocationDocument

variable {d : LocationDocument} {maxDepth : Nat}

/-- Without any finding a location is built. -/
theorem exists_build (hlocation : d.locationFindings = [])
    (hslices : ∀ r ∈ d.sliceReports maxDepth, r.valid = true) :
    ∃ l, d.build maxDepth = some (.ok l) := by
  -- the id is read, and there is a slice
  obtain ⟨hid, hempty⟩ := List.append_eq_nil_iff.1 hlocation
  obtain ⟨id, hid⟩ := Checked.findings_eq_nil_iff.1 hid
  have hne : d.givenSlices ≠ [] := by
    intro h
    rw [emptyFindings, h] at hempty
    cases hempty
  -- no slice has findings, neither of its own nor among the others
  have hfindings : ∀ i s, d.givenSlices[i]? = some s →
      (s.check maxDepth i).findings = [] ∧ duplicateFindings d.givenSlices i = [] ∧
        overlapFindings d.givenSlices i = [] := by
    intro i s hs
    have h := forall_valid_sliceReports_iff.1 hslices i s hs
    rw [sliceFindings, List.append_eq_nil_iff, List.append_eq_nil_iff] at h
    exact ⟨h.1.1, h.1.2, h.2⟩
  have hpass : ∀ s ∈ d.givenSlices, ∃ t, s.Passes maxDepth t := by
    intro s hs
    obtain ⟨i, hi⟩ := List.getElem?_of_mem hs
    obtain ⟨t, ht⟩ := Checked.findings_eq_nil_iff.1 (hfindings i s hi).1
    exact ⟨t, SliceDocument.check_eq_valid_iff.1 ht⟩
  obtain ⟨row, hrow⟩ := exists_forall₂ hpass
  have hconflicts : conflicts d.givenSlices = [] :=
    conflicts_eq_nil_of_overlapFindings fun i hi =>
      (hfindings i _ (List.getElem?_eq_getElem hi)).2.2
  have hdefects := sliceDefects_eq_nil_of_passes hrow hne hconflicts
  refine ⟨⟨id, inForceOrder row, row, hdefects, rfl⟩, ?_⟩
  rw [build, hid, typedSlices?_eq_some_iff.2 hrow]
  exact congrArg some (FormulaLocation.build_eq_ok_iff.2 ⟨hdefects, rfl, rfl⟩)

/-- A location that is built has the id of the document, and the slices it stands for. -/
theorem build_eq_ok {l : FormulaLocation} (h : d.build maxDepth = some (.ok l)) :
    d.checkId = .valid l.location ∧
      ∃ row, List.Forall₂ (SliceDocument.Passes maxDepth) d.givenSlices row ∧
        l.timeSlices.Perm row := by
  obtain ⟨id, hid, h⟩ := Option.bind_eq_some_iff.1 h
  obtain ⟨row, hrow, h⟩ := Option.bind_eq_some_iff.1 h
  obtain ⟨_, rfl, hslices⟩ := FormulaLocation.build_eq_ok_iff.1 (Option.some.inj h)
  refine ⟨?_, row, typedSlices?_eq_some_iff.1 hrow, ?_⟩
  · cases hcheck : d.checkId with
    | valid id => rw [hcheck] at hid; cases hid; rfl
    | invalid _ _ => rw [hcheck] at hid; cases hid
  · rw [hslices]
    exact inForceOrder_perm row

/-! ### The outcome of a validation -/

/-- No finding stands against the document. -/
def Clean (d : LocationDocument) (maxDepth : Nat) : Prop :=
  d.locationFindings = [] ∧ ∀ r ∈ d.sliceReports maxDepth, r.valid = true

/-- A clean document is accepted with the location that is built from it. -/
theorem validate_of_clean (h : d.Clean maxDepth) :
    ∃ l, d.build maxDepth = some (.ok l) ∧
      d.validate maxDepth =
        ⟨⟨.accepted, d.givenId, [], d.sliceReports maxDepth⟩, some l⟩ := by
  obtain ⟨l, hl⟩ := exists_build h.1 h.2
  refine ⟨l, hl, ?_⟩
  have hall : (d.sliceReports maxDepth).all SliceReport.valid = true := List.all_eq_true.2 h.2
  simp only [validate, h.1, hall, hl]
  rfl

/-- Any other document is rejected for its own findings and those of its slices. -/
theorem validate_of_not_clean (h : ¬ d.Clean maxDepth) :
    d.validate maxDepth =
      ⟨⟨.rejected, d.givenId, d.locationFindings.map Finding.info, d.sliceReports maxDepth⟩,
        none⟩ := by
  have hcond : (d.locationFindings.isEmpty &&
      (d.sliceReports maxDepth).all SliceReport.valid) = false := by
    rw [Bool.eq_false_iff]
    intro htrue
    rw [Bool.and_eq_true, List.isEmpty_iff, List.all_eq_true] at htrue
    exact h htrue
  simp only [validate, hcond]
  rfl

/-- The reports of slices without errors are the valid ones. -/
theorem errors_eq_nil_iff_valid {r : SliceReport} (hr : r ∈ d.sliceReports maxDepth) :
    r.errors = [] ↔ r.valid = true := by
  obtain ⟨i, hi, rfl⟩ := List.mem_mapIdx.1 hr
  simp [SliceReport.of]

theorem errors_validate_eq_nil_iff :
    (d.validate maxDepth).report.errors = [] ↔ d.Clean maxDepth := by
  by_cases h : d.Clean maxDepth
  · obtain ⟨l, _, hl⟩ := validate_of_clean h
    refine iff_of_true ?_ h
    rw [hl, SubmissionReport.errors, List.nil_append, List.flatMap_eq_nil_iff]
    exact fun r hr => (errors_eq_nil_iff_valid hr).2 (h.2 r hr)
  · refine iff_of_false ?_ h
    rw [validate_of_not_clean h, SubmissionReport.errors, List.append_eq_nil_iff,
      List.map_eq_nil_iff, List.flatMap_eq_nil_iff]
    rintro ⟨hlocation, hslices⟩
    exact h ⟨hlocation, fun r hr => (errors_eq_nil_iff_valid hr).1 (hslices r hr)⟩

end LocationDocument

/-- A failed calculation has the errors of its location, or the one of its evaluation. -/
theorem CalculationRequest.errors_run_ne_nil {r : CalculationRequest} {settings : Settings}
    {now : Instant} (h : (r.run settings now).status = .failed) :
    (r.run settings now).errors ≠ [] := by
  simp only [run, outcome] at h ⊢
  cases hlocation : (r.location.validate settings.maxFormulaDepth).location with
  | none =>
    -- without a location the document is not clean
    have hrejected : ¬ r.location.Clean settings.maxFormulaDepth := by
      intro hclean
      obtain ⟨l, _, hl⟩ := LocationDocument.validate_of_clean hclean
      rw [hl] at hlocation
      cases hlocation
    exact fun herrors => hrejected (LocationDocument.errors_validate_eq_nil_iff.1 herrors)
  | some l =>
    rw [hlocation] at h
    dsimp only at h ⊢
    cases heval : r.evaluate settings l with
    | ok series => rw [heval] at h; cases h
    | error e => exact List.cons_ne_nil _ _

/-! ### Main result -/

/-- The location is what the document stands for, and it is sound. -/
structure LocationDocument.StandsFor (d : LocationDocument) (maxDepth : Nat)
    (l : FormulaLocation) : Prop where
  /-- Exactly one id is present, and it is the id of the location. -/
  id : (∃ m, l.location = .market m ∧ d.marketId = some m.text ∧ d.networkId = none) ∨
    ∃ n, l.location = .network n ∧ d.networkId = some n.text ∧ d.marketId = none
  nonempty : l.timeSlices ≠ []
  distinct : (l.timeSlices.map TimeSlice.id).Nodup
  validFrom_lt : ∀ s ∈ l.timeSlices, s.validFrom < s.validTo
  disjoint : l.timeSlices.Pairwise fun a b => ∀ t, ¬ (a.covers t = true ∧ b.covers t = true)
  /-- The slices are those that the document stands for, each of them once. -/
  slices : ∃ row, List.Forall₂ SliceDocument.Reads d.givenSlices row ∧ l.timeSlices.Perm row
  order : l.timeSlices.Pairwise fun a b => a.validFrom < b.validFrom
  depth : ∀ s ∈ l.timeSlices, s.formula.depth ≤ maxDepth
  operands : ∀ s ∈ l.timeSlices, ∀ g, Formula.Part g s.formula → g.operands ≠ []
  shares : ∀ s ∈ l.timeSlices, ∀ g m, Formula.Part g s.formula → Operand.meter m ∈ g.operands →
    ∀ p ∈ [m.transformerLoss, m.conductionLoss, m.distribution], 0 ≤ p.value ∧ p.value ≤ 1

namespace LocationDocument

variable {d : LocationDocument} {maxDepth : Nat}

/-- The location of a clean document is what the document stands for. -/
theorem Clean.standsFor (h : d.Clean maxDepth) {l : FormulaLocation}
    (hl : d.build maxDepth = some (.ok l)) : d.StandsFor maxDepth l := by
  obtain ⟨hid, row, hrow, hperm⟩ := build_eq_ok hl
  have hread : List.Forall₂ SliceDocument.Reads d.givenSlices row := hrow.imp fun _ _ hs => hs.1
  have hrowPass : ∀ s ∈ row, s.formula.depth ≤ maxDepth ∧
      ∃ f : FormulaDocument, f.Reads s.formula := by
    refine forall_mem_of_forall₂ (fun doc t => ?_) hrow
    rintro ⟨ht, _, hdepth⟩
    obtain ⟨f, _, hf⟩ := ht.formula
    exact ⟨hdepth, f, hf⟩
  have hpass := fun s hs => hrowPass s (hperm.mem_iff.1 hs)
  refine ⟨?_, l.timeSlices_ne_nil, ?_, fun s hs => l.validFrom_lt_validTo hs, ?_,
    ⟨row, hread, hperm⟩, l.pairwise_validFrom_lt, fun s hs => (hpass s hs).1, ?_, ?_⟩
  · -- the id is in one of the two fields, and the other one is absent
    obtain ⟨hmarket, hnetwork⟩ := checkId_eq_valid_iff.1 hid
    cases hloc : l.location with
    | market m =>
      rw [hloc] at hmarket hnetwork
      exact .inl ⟨m, rfl, hmarket, hnetwork⟩
    | network n =>
      rw [hloc] at hmarket hnetwork
      exact .inr ⟨n, rfl, hnetwork, hmarket⟩
  · -- the order of the slices does not matter for their ids
    have hdup : ∀ i < d.givenSlices.length, duplicateFindings d.givenSlices i = [] := by
      intro i hi
      have hnone := forall_valid_sliceReports_iff.1 h.2 i _ (List.getElem?_eq_getElem hi)
      rw [sliceFindings, List.append_eq_nil_iff, List.append_eq_nil_iff] at hnone
      exact hnone.1.2
    exact (hperm.map TimeSlice.id).nodup_iff.2 (nodup_of_duplicateFindings hread hdup)
  · refine l.pairwise_timeSlices.imp fun {a b} hab t => ?_
    rintro ⟨ha, hb⟩
    have hapart : a.validity.Apart b.validity := .inl hab
    rw [TimeSlice.covers, hapart.not_contains ha] at hb
    cases hb
  · intro s hs g hg
    obtain ⟨_, f, hf⟩ := hpass s hs
    exact hf.operands_ne_nil_of_part hg
  · intro s _ g m _ _ p _
    exact p.value_mem_unit

theorem isAccepted_validate_iff_clean :
    (d.validate maxDepth).report.isAccepted = true ↔ d.Clean maxDepth := by
  by_cases h : d.Clean maxDepth
  · obtain ⟨l, _, hl⟩ := validate_of_clean h
    rw [hl]
    exact iff_of_true rfl h
  · rw [validate_of_not_clean h]
    exact iff_of_false Bool.false_ne_true h

/-- A location is accepted exactly if its report is empty, and exactly if it comes with a location,
which is then what the document stands for.  A calculation never fails without an error. -/
theorem isAccepted_validate_iff (d : LocationDocument) (maxDepth : Nat) :
    ((d.validate maxDepth).report.isAccepted = true ↔
        (d.validate maxDepth).report.errors = []) ∧
      ((d.validate maxDepth).report.isAccepted = true ↔
        ∃ l, (d.validate maxDepth).location = some l ∧ d.StandsFor maxDepth l) ∧
      ∀ (r : CalculationRequest) (settings : Settings) (now : Instant), r.location = d →
        (r.run settings now).status = .failed → (r.run settings now).errors ≠ [] := by
  refine ⟨?_, ?_, ?_⟩
  · rw [isAccepted_validate_iff_clean, errors_validate_eq_nil_iff]
  · constructor
    · intro h
      obtain ⟨l, hbuild, hl⟩ := validate_of_clean (isAccepted_validate_iff_clean.1 h)
      refine ⟨l, ?_, (isAccepted_validate_iff_clean.1 h).standsFor hbuild⟩
      rw [hl]
    · rintro ⟨l, hl, _⟩
      rw [← isSome_location_validate, hl, Option.isSome_some]
  · rintro r settings now rfl hfailed
    exact r.errors_run_ne_nil hfailed

end LocationDocument

end EnergyFormula
