import EnergyFormula.Proofs.Evaluation.InForce
import EnergyFormula.Proofs.Evaluation.Instants
import EnergyFormula.Proofs.Evaluation.Zeros
import EnergyFormula.Proofs.Validation.Resubmission

/-!
# Why an accepted location fails

What a location needs apart from data is checked when it is accepted: its formulas are not too deep,
and no operator lacks operands.  So it fails only for its inputs, and for the period and the
resolution that it is evaluated over (`FormulaLocation.failsForData_of_accepted`).

The stages of an evaluation fail each with codes of its own (`EvalError.LiesInData`): the grid of a
period, the inputs that are brought onto it, the formula, and the pass over the slices.
-/

namespace EnergyFormula

/-! ### Failures of a stage -/

/-- The codes of failures that lie in the inputs, or in the period that is asked for. -/
def dataCodes : List ErrorCode :=
  [.notEvaluable, .misalignedResolution, .incompleteInput, .unresolvedTimeSeriesReference,
    .uncoveredPeriod, .divisionByZero]

/-- The failure lies in the data, and only a cause that `absent` admits makes it one of an
unresolved reference. -/
def EvalError.LiesInData (absent : EvalCause → Prop) (e : EvalError) : Prop :=
  e.code ∈ dataCodes ∧ (e.code = .unresolvedTimeSeriesReference → absent e.cause)

/-- A failure with any other code says nothing of a reference. -/
theorem EvalError.LiesInData.of_code {absent : EvalCause → Prop} {e : EvalError}
    (code : ErrorCode) (hcode : e.code = code)
    (hdata : code ∈ dataCodes ∧ code ≠ .unresolvedTimeSeriesReference) : e.LiesInData absent := by
  refine ⟨?_, fun h => absurd (hcode.symm.trans h) hdata.2⟩
  rw [hcode]
  exact hdata.1

theorem EvalError.LiesInData.imp {absent absent' : EvalCause → Prop} {e : EvalError}
    (h : e.LiesInData absent) (himp : ∀ cause, absent cause → absent' cause) :
    e.LiesInData absent' :=
  ⟨h.1, fun hcode => himp e.cause (h.2 hcode)⟩

variable {absent : EvalCause → Prop}

/-! ### The grid -/

/-- A period has no grid if it is empty or not a whole number of intervals. -/
theorem Grid.failsForData_build (period : Period) (resolution : Resolution) :
    FailsOnly (EvalError.LiesInData absent) (Grid.build period resolution) := by
  unfold Grid.build
  split
  · split
    · exact FailsOnly.ok _
    · exact FailsOnly.error (.of_code .misalignedResolution rfl (by decide))
  · exact FailsOnly.error (.of_code .notEvaluable rfl (by decide))

/-! ### Inputs -/

theorem failsForData_bucketAt (series : TimeSeries) (grid : Grid) (ratio index : Nat) :
    FailsOnly (EvalError.LiesInData absent) (bucketAt series grid ratio index) := by
  unfold bucketAt
  dsimp only
  split
  · exact FailsOnly.error (.of_code .incompleteInput rfl (by decide))
  · split
    · exact FailsOnly.ok _
    · exact FailsOnly.error (.of_code .incompleteInput rfl (by decide))

/-- A series has defects of its own, it does not fit the grid, or it is too short. -/
theorem code_of_checkAlignment {series : TimeSeries} {grid : Grid} {cause : EvalCause}
    (h : checkAlignment series grid = .error cause) :
    cause.code ∈ [ErrorCode.notEvaluable, .misalignedResolution, .incompleteInput] := by
  rw [checkAlignment_eq] at h
  split at h
  · cases h
    exact List.mem_cons_self
  · split_ifs at h <;> cases h <;> simp [EvalCause.code]

/-- An input that is there fails to be aligned for what it holds. -/
theorem failsForData_align (series : TimeSeries) (grid : Grid) :
    FailsOnly (EvalError.LiesInData absent) (align series grid) := by
  unfold align
  split
  · rename_i cause hcause
    have hcodes : ∀ code ∈ [ErrorCode.notEvaluable, .misalignedResolution, .incompleteInput],
        code ∈ dataCodes ∧ code ≠ .unresolvedTimeSeriesReference := by decide
    exact FailsOnly.error (.of_code cause.code rfl (hcodes _ (code_of_checkAlignment hcause)))
  · exact (FailsOnly.mapM fun i _ => failsForData_bucketAt series grid _ i).bind
      fun _ _ => FailsOnly.ok _

/-- The cause is that one of the names has no input. -/
def Inputs.Lacks (inputs : Inputs) (names : List String) (cause : EvalCause) : Prop :=
  ∃ name ∈ names, inputs.lookup name = none ∧ cause = .unresolved name

theorem failsForData_alignNamed (grid : Grid) (inputs : Inputs) {names : List String}
    {name : String} (hname : name ∈ names) :
    FailsOnly (EvalError.LiesInData (Inputs.Lacks inputs names)) (alignNamed grid inputs name) := by
  unfold alignNamed
  split
  · exact failsForData_align _ grid
  · rename_i hnone
    rintro _ ⟨⟩
    refine ⟨?_, fun _ => ⟨name, hname, hnone, rfl⟩⟩
    show ErrorCode.unresolvedTimeSeriesReference ∈ dataCodes
    decide

theorem failsForData_alignAll (grid : Grid) (inputs : Inputs) {names : List String} :
    ∀ {some : List String}, (∀ name ∈ some, name ∈ names) →
      FailsOnly (EvalError.LiesInData (Inputs.Lacks inputs names)) (alignAll grid inputs some)
  | [], _ => FailsOnly.ok _
  | name :: rest, h => by
    obtain ⟨hname, hrest⟩ := List.forall_mem_cons.1 h
    exact (failsForData_alignNamed grid inputs hname).bind fun _ _ =>
      (failsForData_alignAll grid inputs hrest).bind fun _ _ => FailsOnly.ok _

/-! ### Formulas and slices -/

/-- A formula with operands that is not too deep fails for its inputs, or where it divides by
zero. -/
theorem Formula.failsForData_samples {f : Formula} {maxDepth : Nat} (hdepth : f.depth ≤ maxDepth)
    (hops : f.HasOperands) (inputs : Inputs) (grid : Grid) :
    FailsOnly (EvalError.LiesInData (Inputs.Lacks inputs f.names))
      (f.samples maxDepth inputs grid) := by
  unfold samples
  rw [if_neg (Nat.not_lt.2 hdepth)]
  refine FailsOnly.bind (FailsOnly.bind ?_ fun w hw => ?_) fun _ _ => FailsOnly.ok _
  · exact (failsForData_alignAll grid inputs fun _ hname => hname).bind fun _ _ => FailsOnly.ok _
  · -- with all of its series at hand only a divisor can be at fault
    intro e he
    obtain ⟨_, hfits⟩ := Workspace.fits_prepare hw
    obtain ⟨hcode, _⟩ := failsAtZeros_eval hfits f hops (has_prepare hw) e he
    exact .of_code .divisionByZero hcode (by decide)

/-- The cause is that the slice is evaluated and refers to a series that no input has. -/
def TimeSlice.Lacks (s : TimeSlice) (inputs : Inputs) (cause : EvalCause) : Prop :=
  s.quality = .valid ∧ ∃ r ∈ s.formula.references, inputs.lookup r.name = none ∧
    cause = .inSlice s.id (.unresolved r.name)

/-- The formula of the slice is not too deep, and no operator in it lacks operands. -/
structure TimeSlice.IsEvaluable (s : TimeSlice) (maxDepth : Nat) : Prop where
  depth : s.formula.depth ≤ maxDepth
  operands : s.formula.HasOperands

section Slices

variable {settings : Settings} {inputs : Inputs} {s : TimeSlice}

theorem TimeSlice.failsForData_samples (hs : s.IsEvaluable settings.maxFormulaDepth) (grid : Grid) :
    FailsOnly (EvalError.LiesInData (s.Lacks inputs)) (s.samples settings inputs grid) := by
  unfold samples
  split
  · exact FailsOnly.ok _
  · rename_i hvalid
    split
    · exact FailsOnly.ok _
    · -- the failure of the formula is said of the slice, with the code that it has
      rename_i e he
      obtain ⟨hdata, habsent⟩ := Formula.failsForData_samples hs.depth hs.operands inputs grid e he
      rintro _ ⟨⟩
      refine ⟨hdata, fun hcode => ?_⟩
      obtain ⟨name, hname, hnone, hcause⟩ := habsent hcode
      obtain ⟨r, hr, rfl⟩ := List.mem_map.1 hname
      exact ⟨hvalid, r, hr, hnone, congrArg (EvalCause.inSlice s.id) hcause⟩

theorem TimeSlice.failsForData_window {absent : EvalCause → Prop} (s : TimeSlice)
    (period : Period) : FailsOnly (EvalError.LiesInData absent) (s.window period) := by
  unfold window
  split
  · exact FailsOnly.ok _
  · exact FailsOnly.error (.of_code .uncoveredPeriod rfl (by decide))

/-- A slice fails for its inputs, for its divisors, or for the part of the period in which it is
valid. -/
theorem TimeSlice.failsForData_evaluate (hs : s.IsEvaluable settings.maxFormulaDepth)
    (location : LocationId) (period : Period) (output : OutputSpec) :
    FailsOnly (EvalError.LiesInData (s.Lacks inputs))
      (s.evaluate location settings inputs period output) := by
  refine (s.failsForData_window period).bind fun window _ => ?_
  refine (Grid.failsForData_build window output.resolution).bind fun grid _ => ?_
  exact (TimeSlice.failsForData_samples hs grid).bind fun _ _ => FailsOnly.ok _

/-- The slices fail to cover a period for a gap, or for a change within an interval. -/
theorem failsForData_coverWindows {absent : EvalCause → Prop} (location : LocationId)
    (grid : Grid) : ∀ (slices : List TimeSlice) (cursor : Instant),
      FailsOnly (EvalError.LiesInData absent) (coverWindows location grid cursor slices)
  | [], cursor => by
    unfold coverWindows
    split
    · exact FailsOnly.ok _
    · exact FailsOnly.error (.of_code .uncoveredPeriod rfl (by decide))
  | s :: rest, cursor => by
    rw [coverWindows_cons]
    refine (s.failsForData_window grid.period).bind fun window _ => ?_
    split
    · exact FailsOnly.error (.of_code .uncoveredPeriod rfl (by decide))
    · split
      · exact FailsOnly.error (.of_code .misalignedResolution rfl (by decide))
      · exact (failsForData_coverWindows location grid rest window.stop).bind
          fun _ _ => FailsOnly.ok _

theorem failsForData_windowSamples (resolution : Resolution) {slices : List TimeSlice} :
    ∀ {windows : List SliceWindow}, (∀ w ∈ windows, w.slice ∈ slices) →
      (∀ s ∈ slices, s.IsEvaluable settings.maxFormulaDepth) →
        FailsOnly (EvalError.LiesInData fun cause => ∃ s ∈ slices, s.Lacks inputs cause)
          (windowSamples settings inputs resolution windows)
  | [], _, _ => FailsOnly.ok _
  | w :: rest, hwindows, hslices => by
    obtain ⟨hw, hrest⟩ := List.forall_mem_cons.1 hwindows
    refine (Grid.failsForData_build w.window resolution).bind fun grid _ => ?_
    have hsamples := (TimeSlice.failsForData_samples (hslices w.slice hw) grid).imp fun e he =>
      he.imp fun cause hcause => (⟨w.slice, hw, hcause⟩ : ∃ s ∈ slices, s.Lacks inputs cause)
    exact hsamples.bind fun _ _ =>
      (failsForData_windowSamples resolution hrest hslices).bind fun _ _ => FailsOnly.ok _

end Slices

/-! ### Main result -/

/-- The slices of an accepted location can be evaluated. -/
theorem LocationDocument.isEvaluable_of_validate {d : LocationDocument} {maxDepth : Nat}
    {l : FormulaLocation} (h : (d.validate maxDepth).location = some l) :
    ∀ s ∈ l.timeSlices, s.IsEvaluable maxDepth := by
  obtain ⟨hclean, hbuild⟩ := clean_of_validate h
  have hstands := hclean.standsFor hbuild
  exact fun s hs => ⟨hstands.depth s hs, hstands.operands s hs⟩

/-- An accepted location, evaluated with the settings that it was accepted with, fails only for
reasons that lie in the data: the code of the failure is one of `dataCodes`, and a reference is
unresolved only if a slice that is evaluated refers to a series that no input has.  The same holds
of each of its slices. -/
theorem FormulaLocation.failsForData_of_accepted (d : LocationDocument) (settings : Settings)
    (l : FormulaLocation) (h : (d.validate settings.maxFormulaDepth).location = some l)
    (inputs : Inputs) (period : Period) (output : OutputSpec) :
    (∀ e, l.evaluate settings inputs period output = .error e →
      e.code ∈ dataCodes ∧ (e.code = .unresolvedTimeSeriesReference →
        ∃ s ∈ l.slicesOverlapping period, s.Lacks inputs e.cause)) ∧
      ∀ s ∈ l.timeSlices, ∀ location e,
        s.evaluate location settings inputs period output = .error e →
          e.code ∈ dataCodes ∧
            (e.code = .unresolvedTimeSeriesReference → s.Lacks inputs e.cause) := by
  have hslices := LocationDocument.isEvaluable_of_validate h
  refine ⟨?_, fun s hs location =>
    TimeSlice.failsForData_evaluate (hslices s hs) location period output⟩
  show FailsOnly
    (EvalError.LiesInData fun cause => ∃ s ∈ l.slicesOverlapping period, s.Lacks inputs cause)
    (l.evaluate settings inputs period output)
  refine (Grid.failsForData_build period output.resolution).bind fun grid hgrid => ?_
  refine (failsForData_coverWindows l.location grid _ _).bind fun windows hwindows => ?_
  refine FailsOnly.bind (failsForData_windowSamples output.resolution ?_ ?_)
    fun _ _ => FailsOnly.ok _
  · intro w hw
    obtain ⟨s, hs, hpart⟩ := exists_left_of_forall₂ (isPart_of_coverWindows hwindows) w hw
    rw [hpart.1]
    exact hs
  · exact fun s hs => hslices s (mem_slicesOverlapping_iff.1 hs).1

/-- In the first hour the values of the series `x` are taken over. -/
def SliceDocument.takenOver : SliceDocument where
  id := some 1
  quality := some "valid"
  validFrom := some "1970-01-01T00:00:00Z"
  validTo := some "1970-01-01T01:00:00Z"
  formula := some (Formula.operand (.variable .x)).document

/-- The location with this slice. -/
def LocationDocument.takenOver : LocationDocument :=
  ⟨some "57685676748", none, some [SliceDocument.takenOver]⟩

/-- The slice that `SliceDocument.takenOver` stands for. -/
def TimeSlice.takenOver : TimeSlice :=
  ⟨1, .valid, ⟨0, 0⟩, ⟨3600, 0⟩, .operand (.variable .x)⟩

/-- The location that `LocationDocument.takenOver` stands for. -/
def FormulaLocation.takenOver : FormulaLocation where
  location := .sample
  timeSlices := [TimeSlice.takenOver]
  sound := ⟨[TimeSlice.takenOver], sliceDefects_eq_nil_iff.2
    ⟨List.cons_ne_nil _ _, by decide, List.pairwise_singleton _ _⟩,
    (List.mergeSort_singleton TimeSlice.takenOver).symm⟩

theorem LocationDocument.location_validate_takenOver :
    (takenOver.validate 32).location = some FormulaLocation.takenOver := by
  have hread : SliceDocument.takenOver.Reads TimeSlice.takenOver :=
    { id := rfl
      quality := ⟨"valid", rfl, by decide⟩
      validFrom := ⟨"1970-01-01T00:00:00Z", rfl, rfl⟩
      validTo := ⟨"1970-01-01T01:00:00Z", rfl, rfl⟩
      formula := ⟨_, rfl, .operand (.formulaVariable .x)⟩ }
  have hpass : List.Forall₂ (SliceDocument.Passes 32) takenOver.givenSlices
      FormulaLocation.takenOver.timeSlices :=
    .cons ⟨hread, by decide, by decide⟩ .nil
  have hid : takenOver.checkId = .valid FormulaLocation.takenOver.location :=
    checkId_eq_valid_iff.2 ⟨rfl, rfl⟩
  exact (validate_of_passes hid hpass (List.pairwise_singleton _ 1)).2

/-- Without inputs the reference is unresolved, and the slice is the one that refers to it. -/
theorem FormulaLocation.failsForData_of_accepted_takenOver :
    (LocationDocument.takenOver.validate (default : Settings).maxFormulaDepth).location =
        some takenOver ∧
      ∃ e, takenOver.evaluate default [] ⟨⟨0, 0⟩, ⟨3600, 0⟩⟩ .hourly = .error e ∧
        e.code = .unresolvedTimeSeriesReference ∧ TimeSlice.takenOver.Lacks [] e.cause := by
  have haccepted := LocationDocument.location_validate_takenOver
  have hunresolved : (match takenOver.evaluate default [] ⟨⟨0, 0⟩, ⟨3600, 0⟩⟩ .hourly with
      | .error e => decide (e.code = .unresolvedTimeSeriesReference)
      | .ok _ => false) = true := by
    decide +kernel
  split at hunresolved
  · rename_i e herror
    have hcode := of_decide_eq_true hunresolved
    obtain ⟨hlocation, _⟩ := failsForData_of_accepted .takenOver default takenOver haccepted []
      ⟨⟨0, 0⟩, ⟨3600, 0⟩⟩ .hourly
    obtain ⟨s, hs, hlacks⟩ := (hlocation e herror).2 hcode
    obtain rfl := List.mem_singleton.1 (mem_slicesOverlapping_iff.1 hs).1
    exact ⟨haccepted, e, herror, hcode, hlacks⟩
  · cases hunresolved

end EnergyFormula
