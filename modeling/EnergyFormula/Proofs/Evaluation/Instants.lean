import EnergyFormula.Proofs.Evaluation.Pointwise
import EnergyFormula.Proofs.Time.Steps

/-!
# Formulas at instants

The sample of a series in an interval of a grid depends on the start of the interval and on nothing
else of the grid (`TimeSeries.bucket?`), and so does that of a formula.

* `Formula.exists_samples_iff`: a formula has samples on a grid exactly if its series can be brought
  there and it can be read at the start of every interval.
* `Formula.reading_of_samples`: its samples are then those that are read.
-/

namespace EnergyFormula

/-! ### Series at instants -/

/-- The sample of the `ratio` intervals of a series that begin with the one that starts at an
instant. -/
def TimeSeries.bucket? (series : TimeSeries) (ratio : Nat) (t : Instant) : Option Sample :=
  (series.indexAt? t).bind fun first =>
    if first + ratio ≤ series.intervals.size then
      some (bucketSample (series.intervals.extract first (first + ratio)).toList)
    else none

theorem toOption_bucketAt (series : TimeSeries) (grid : Grid) (ratio i : Nat) :
    (bucketAt series grid ratio i).toOption = series.bucket? ratio (grid.startOf i) := by
  unfold bucketAt TimeSeries.bucket?
  dsimp only
  cases series.indexAt? (grid.startOf i) with
  | none => rfl
  | some first =>
    dsimp only [Option.bind_some]
    split <;> rfl

/-- The series can be brought onto the grid of a resolution over a period. -/
structure TimeSeries.AlignsWith (series : TimeSeries) (resolution : Resolution) (period : Period) :
    Prop where
  evaluable : series.checkEvaluable = .ok ()
  finer : series.resolution.seconds ≤ resolution.seconds
  divides : series.resolution.divides resolution = true
  inPhase : series.resolution.isAligned series.period.start period.start = true
  covers : series.period.covers period = true

/-- The checks of a series against a grid, one after another. -/
theorem checkAlignment_eq (series : TimeSeries) (grid : Grid) : checkAlignment series grid =
    match series.checkEvaluable with
    | .error e => .error (.notEvaluable e)
    | .ok () =>
      if grid.resolution.seconds < series.resolution.seconds then
        .error (.coarserInput series.id series.resolution grid.resolution)
      else if !series.resolution.divides grid.resolution then
        .error (.indivisibleInput series.id series.resolution grid.resolution)
      else if !series.resolution.isAligned series.period.start grid.period.start then
        .error (.outOfPhase series.id)
      else if !series.period.covers grid.period then
        .error (.shortInput series.id series.period grid.period)
      else .ok () := by
  unfold checkAlignment
  cases series.checkEvaluable <;> rfl

theorem checkAlignment_eq_ok_iff {series : TimeSeries} {grid : Grid} :
    checkAlignment series grid = .ok () ↔ series.AlignsWith grid.resolution grid.period := by
  rw [checkAlignment_eq]
  constructor
  · intro h
    split at h
    · cases h
    · rename_i hevaluable
      split_ifs at h with hcoarser hdivides hphase hcovers
      rw [Bool.not_eq_true', Bool.not_eq_false] at hdivides hphase hcovers
      exact ⟨hevaluable, Nat.not_lt.1 hcoarser, hdivides, hphase, hcovers⟩
  · intro h
    rw [h.evaluable]
    simp [h.divides, h.inPhase, h.covers, h.finer]

/-! ### Series on a grid -/

/-- The sample at an index. -/
def sampleOf (samples : Array Sample) (i : Nat) : Sample :=
  samples.getD i .missing

theorem pointwise_mapM {n : Nat} (f : Nat → Except EvalError Sample) :
    Pointwise n (fun row i => sampleOf row.toArray i) ((List.range n).mapM f) fun i =>
      (f i).toOption where
  sound row hrow i hi := by
    obtain ⟨hlength, hget⟩ := List.forall₂_iff_get.1 (mapM_eq_ok_iff.1 hrow)
    have hrange : i < (List.range n).length := by
      rw [List.length_range]
      exact hi
    have hrow' : i < row.length := hlength ▸ hrange
    have hf := hget i hrange hrow'
    rw [List.get_eq_getElem, List.getElem_range] at hf
    rw [hf]
    simp [sampleOf, hrow', Except.toOption]
  complete hread := by
    have hok : ∀ i ∈ List.range n, ∃ x, f i = .ok x := by
      intro i hi
      obtain ⟨x, hx⟩ := hread i (List.mem_range.1 hi)
      exact ⟨x, toOption_eq_some_iff.1 hx⟩
    obtain ⟨row, hrow⟩ := exists_forall₂ hok
    exact ⟨row, mapM_eq_ok_iff.2 hrow⟩

theorem alignsWith_of_align {series : TimeSeries} {grid : Grid} {samples : Array Sample}
    (h : align series grid = .ok samples) :
    series.AlignsWith grid.resolution grid.period := by
  unfold align at h
  split at h
  · cases h
  · rename_i hcheck
    exact checkAlignment_eq_ok_iff.1 hcheck

/-- A series that can be brought onto a grid has in each interval the sample at its start. -/
theorem pointwise_align {series : TimeSeries} {grid : Grid}
    (h : series.AlignsWith grid.resolution grid.period) :
    Pointwise grid.length sampleOf (align series grid) fun i =>
      series.bucket? (grid.resolution.seconds / series.resolution.seconds) (grid.startOf i) := by
  unfold align
  rw [checkAlignment_eq_ok_iff.2 h]
  refine ((pointwise_mapM _).map List.toArray fun _ _ _ _ => rfl).congr fun i _ => ?_
  exact (toOption_bucketAt series grid _ i).symm

/-! ### Inputs -/

/-- The sample that an input has at an instant in an interval of the resolution. -/
def Inputs.sampleAt? (inputs : Inputs) (resolution : Resolution) (t : Instant) (name : String) :
    Option Sample :=
  (inputs.lookup name).bind fun series =>
    series.bucket? (resolution.seconds / series.resolution.seconds) t

/-- There are inputs of these names, and all of them can be brought onto the grid of a resolution
over a period. -/
def Inputs.AlignWith (inputs : Inputs) (names : List String) (resolution : Resolution)
    (period : Period) : Prop :=
  ∀ name ∈ names, ∃ series, inputs.lookup name = some series ∧
    series.AlignsWith resolution period

section Prepare

variable {grid : Grid} {inputs : Inputs} {names : List String} {name : String} {w : Workspace}

theorem exists_alignsWith_of_alignNamed {samples : Array Sample}
    (h : alignNamed grid inputs name = .ok samples) :
    ∃ series, inputs.lookup name = some series ∧
      series.AlignsWith grid.resolution grid.period := by
  unfold alignNamed at h
  split at h
  · rename_i series hlookup
    exact ⟨series, hlookup, alignsWith_of_align h⟩
  · cases h

theorem pointwise_alignNamed {series : TimeSeries} (hlookup : inputs.lookup name = some series)
    (h : series.AlignsWith grid.resolution grid.period) :
    Pointwise grid.length sampleOf (alignNamed grid inputs name) fun i =>
      Inputs.sampleAt? inputs grid.resolution (grid.startOf i) name := by
  unfold alignNamed Inputs.sampleAt?
  rw [hlookup]
  exact pointwise_align h

theorem exists_alignAll_iff :
    (∃ aligned, alignAll grid inputs names = .ok aligned) ↔
      ∀ name ∈ names, ∃ samples, alignNamed grid inputs name = .ok samples := by
  induction names with
  | nil => exact iff_of_true ⟨[], rfl⟩ (List.forall_mem_nil _)
  | cons name rest ih =>
    rw [List.forall_mem_cons, ← ih]
    constructor
    · rintro ⟨aligned, h⟩
      obtain ⟨samples, hsamples, h⟩ := bind_eq_ok.1 h
      obtain ⟨others, hothers, _⟩ := bind_eq_ok.1 h
      exact ⟨⟨samples, hsamples⟩, others, hothers⟩
    · rintro ⟨⟨samples, hsamples⟩, others, hothers⟩
      exact ⟨(name, samples) :: others,
        bind_eq_ok.2 ⟨samples, hsamples, bind_eq_ok.2 ⟨others, hothers, rfl⟩⟩⟩

/-- The inputs are brought onto a grid exactly if they can be, and have a sample in each of its
intervals. -/
theorem Workspace.exists_prepare_iff :
    (∃ w, prepare grid inputs names = .ok w) ↔
      Inputs.AlignWith inputs names grid.resolution grid.period ∧
        ∀ i < grid.length, ∀ name ∈ names,
          ∃ x, Inputs.sampleAt? inputs grid.resolution (grid.startOf i) name = some x := by
  have hprepare : (∃ w, prepare grid inputs names = .ok w) ↔
      ∃ aligned, alignAll grid inputs names = .ok aligned := by
    constructor
    · rintro ⟨w, h⟩
      obtain ⟨aligned, haligned, _⟩ := bind_eq_ok.1 h
      exact ⟨aligned, haligned⟩
    · rintro ⟨aligned, haligned⟩
      exact ⟨_, bind_eq_ok.2 ⟨aligned, haligned, rfl⟩⟩
  rw [hprepare, exists_alignAll_iff]
  constructor
  · intro h
    refine ⟨fun name hname => ?_, fun i hi name hname => ?_⟩
    · obtain ⟨samples, hsamples⟩ := h name hname
      exact exists_alignsWith_of_alignNamed hsamples
    · obtain ⟨samples, hsamples⟩ := h name hname
      obtain ⟨series, hlookup, haligns⟩ := exists_alignsWith_of_alignNamed hsamples
      exact ⟨_, (pointwise_alignNamed hlookup haligns).sound samples hsamples i hi⟩
  · rintro ⟨haligns, hsamples⟩ name hname
    obtain ⟨series, hlookup, haligns⟩ := haligns name hname
    exact (pointwise_alignNamed hlookup haligns).complete fun i hi => hsamples i hi name hname

/-- On the grid an input has the samples that it has at the starts of the intervals. -/
theorem Workspace.sampleAt?_prepare (h : prepare grid inputs names = .ok w) (hname : name ∈ names)
    {i : Nat} (hi : i < grid.length) :
    w.sampleAt? i name = Inputs.sampleAt? inputs grid.resolution (grid.startOf i) name := by
  obtain ⟨samples, hseries, hsamples⟩ := Workspace.series_eq_ok_of_mem h hname
  obtain ⟨series, hlookup, haligns⟩ := exists_alignsWith_of_alignNamed hsamples
  rw [(pointwise_alignNamed hlookup haligns).sound samples hsamples i hi, Workspace.sampleAt?,
    hseries]
  rfl

end Prepare

/-! ### Formulas -/

theorem Signal.sampleOf_samples {s : Signal} {n i : Nat} (hi : i < n) :
    sampleOf (s.samples n) i = s.sampleAt i := by
  cases s with
  | scalar x => simp [Signal.samples, sampleOf, Signal.sampleAt, hi]
  | series samples => rfl

namespace Formula

variable {f : Formula} {inputs : Inputs} {grid : Grid} {samples : Array Sample}

/-- What is read at the start of an interval is read in the workspace. -/
theorem reading_prepare {w : Workspace} (hw : Workspace.prepare grid inputs f.names = .ok w)
    {i : Nat} (hi : i < grid.length) :
    f.reading (w.sampleAt? i) =
      f.reading (Inputs.sampleAt? inputs grid.resolution (grid.startOf i)) := by
  refine f.reading_congr fun r hr => Workspace.sampleAt?_prepare hw ?_ hi
  exact List.mem_map.2 ⟨r, mem_references.2 hr, rfl⟩

/-- The samples of a formula are those that are read at the starts of the intervals. -/
theorem reading_of_samples {maxDepth : Nat} (h : f.samples maxDepth inputs grid = .ok samples)
    {i : Nat} (hi : i < grid.length) :
    f.reading (Inputs.sampleAt? inputs grid.resolution (grid.startOf i)) =
      some (sampleOf samples i) := by
  obtain ⟨_, w, signal, hw, heval, rfl⟩ := samples_eq_ok_iff.1 h
  rw [← reading_prepare hw hi, Signal.sampleOf_samples hi]
  obtain ⟨rfl, hfits⟩ := Workspace.fits_prepare hw
  exact (Formula.pointwise_eval hfits (Nat.zero_lt_of_lt hi) f).sound signal heval i hi

/-- A formula has samples on a grid exactly if its inputs can be brought there and it can be read at
the start of every interval. -/
theorem exists_samples_iff {maxDepth : Nat} (hn : 0 < grid.length) :
    (∃ samples, f.samples maxDepth inputs grid = .ok samples) ↔
      f.depth ≤ maxDepth ∧ Inputs.AlignWith inputs f.names grid.resolution grid.period ∧
        ∀ i < grid.length, ∃ x,
          f.reading (Inputs.sampleAt? inputs grid.resolution (grid.startOf i)) = some x := by
  constructor
  · rintro ⟨samples, h⟩
    obtain ⟨hdepth, w, _, hw, _⟩ := samples_eq_ok_iff.1 h
    exact ⟨hdepth, (Workspace.exists_prepare_iff.1 ⟨w, hw⟩).1,
      fun i hi => ⟨_, reading_of_samples h hi⟩⟩
  · rintro ⟨hdepth, haligns, hread⟩
    -- what can be read has all its inputs
    have hinputs : ∀ i < grid.length, ∀ name ∈ f.names,
        ∃ x, Inputs.sampleAt? inputs grid.resolution (grid.startOf i) name = some x := by
      intro i hi name hname
      obtain ⟨r, hr, rfl⟩ := List.mem_map.1 hname
      obtain ⟨x, hx⟩ := hread i hi
      exact f.exists_input_of_reading hx r (mem_references.1 hr)
    obtain ⟨w, hw⟩ := Workspace.exists_prepare_iff.2 ⟨haligns, hinputs⟩
    obtain ⟨hgrid, hfits⟩ := Workspace.fits_prepare hw
    obtain ⟨signal, hsignal⟩ : ∃ signal, f.eval w = .ok signal := by
      refine (Formula.pointwise_eval hfits (hgrid ▸ hn) f).complete fun i hi => ?_
      rw [hgrid] at hi
      rw [reading_prepare hw hi]
      exact hread i hi
    exact ⟨_, samples_eq_ok_iff.2 ⟨hdepth, w, signal, hw, hsignal, rfl⟩⟩

end Formula

end EnergyFormula
