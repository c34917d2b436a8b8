import EnergyFormula.Evaluation.Formula
import EnergyFormula.Proofs.Rows

/-!
# The shape of signals

A signal fits a grid if it is a scalar or has a sample for every interval of it (`Signal.Fits`).
The operators of formulas keep that, and series are brought onto the grid before any of them is
applied; so a formula has a sample in every interval (`Formula.size_samples`).
-/

namespace EnergyFormula

/-- The signal is a scalar, or a series of that length. -/
def Signal.Fits (n : Nat) (s : Signal) : Prop :=
  ∀ m ∈ s.length?, m = n

namespace Signal

variable {n : Nat} {s t : Signal}

/-! ### Operators -/

theorem fits_scalar (sample : Sample) : (scalar sample).Fits n := by
  intro m hm
  cases hm

theorem fits_series_iff {samples : Array Sample} : (series samples).Fits n ↔ samples.size = n := by
  constructor
  · intro h
    exact h samples.size rfl
  · rintro h m hm
    cases hm
    exact h

/-- A scalar has the same sample in all intervals. -/
theorem sampleAt_eq_of_isScalar (h : s.isScalar = true) (i j : Nat) :
    s.sampleAt i = s.sampleAt j := by
  cases s with
  | scalar x => rfl
  | series samples => cases h

/-- Signals without a common length are scalars. -/
theorem isScalar_of_commonLength? (h : commonLength? s t = none) :
    s.isScalar = true ∧ t.isScalar = true := by
  cases s with
  | series samples => cases h
  | scalar x =>
    cases t with
    | series samples => cases h
    | scalar y => exact ⟨rfl, rfl⟩

theorem Fits.map (hs : s.Fits n) (f : Float → Float) : (s.map f).Fits n := by
  cases s with
  | scalar sample => exact fits_scalar _
  | series samples =>
    refine fits_series_iff.2 ?_
    rw [Array.size_map]
    exact fits_series_iff.1 hs

theorem Fits.scale (hs : s.Fits n) (factor : Float) : (s.scale factor).Fits n := by
  unfold Signal.scale
  split
  · exact hs
  · exact hs.map _

theorem Fits.commonLength? (hs : s.Fits n) (ht : t.Fits n) : ∀ m ∈ commonLength? s t, m = n := by
  -- the common length is the length of one of the two
  intro m hm
  unfold Signal.commonLength? at hm
  cases hlength : s.length? with
  | none =>
    rw [hlength] at hm
    exact ht m hm
  | some k =>
    rw [hlength] at hm
    exact hs m (hlength.trans hm)

theorem Fits.combine (hs : s.Fits n) (ht : t.Fits n) (f : Float → Float → Float) :
    (combine f s t).Fits n := by
  unfold Signal.combine
  split
  · exact fits_scalar _
  · rename_i m hm
    refine fits_series_iff.2 ?_
    rw [Array.size_ofFn]
    exact hs.commonLength? ht m hm

theorem Fits.foldl_combine (f : Float → Float → Float) :
    ∀ {signals : List Signal} {s : Signal}, s.Fits n → (∀ t ∈ signals, t.Fits n) →
      (signals.foldl (Signal.combine f) s).Fits n
  | [], _, hs, _ => hs
  | t :: rest, _, hs, h => by
    obtain ⟨ht, hrest⟩ := List.forall_mem_cons.1 h
    rw [List.foldl_cons]
    exact Fits.foldl_combine f (hs.combine ht f) hrest

theorem fits_of_fold? {f : Float → Float → Float} {signals : List Signal}
    (h : ∀ t ∈ signals, t.Fits n) (hs : fold? f signals = some s) : s.Fits n := by
  cases signals with
  | nil => cases hs
  | cons t rest =>
    cases hs
    obtain ⟨ht, hrest⟩ := List.forall_mem_cons.1 h
    exact ht.foldl_combine f hrest

theorem quotient_eq_ok {q : Signal} (h : quotient s t = .ok q) : q = combine (· / ·) s t := by
  unfold quotient at h
  split at h
  · split at h
    · cases h
    · cases h
      rfl
  · split at h
    · cases h
    · cases h
      rfl

/-- A quotient goes through if no divisor is zero.  A scalar divisor that is zero fails as a whole,
and otherwise the first interval of the grid with a zero divisor does. -/
theorem quotient_cases (hs : s.Fits n) (ht : t.Fits n) :
    (quotient s t = .ok (combine (· / ·) s t) ∧
      ∀ i < n, ((t.sampleAt i).value == 0) = false) ∨
    (commonLength? s t = none ∧ quotient s t = .error (.of .divisionByZero) ∧
      ∀ i, ((t.sampleAt i).value == 0) = true) ∨
    ∃ i < n, commonLength? s t = some n ∧
      quotient s t = .error (.atPosition .divisionByZero (Grid.position i)) ∧
        ((t.sampleAt i).value == 0) = true ∧
          ∀ j < i, ((t.sampleAt j).value == 0) = false := by
  unfold quotient
  cases hcommon : commonLength? s t with
  | none =>
    -- the only sample of the divisor stands for all intervals
    have hconstant := sampleAt_eq_of_isScalar (isScalar_of_commonLength? hcommon).2
    cases hzero : (t.sampleAt 0).value == 0 with
    | true => exact .inr (.inl ⟨rfl, rfl, fun i => hconstant i 0 ▸ hzero⟩)
    | false => exact .inl ⟨rfl, fun i _ => hconstant i 0 ▸ hzero⟩
  | some m =>
    obtain rfl := hs.commonLength? ht m hcommon
    dsimp only
    split
    · rename_i i hfind
      obtain ⟨hzero, hi, hfirst⟩ := List.find?_range_eq_some.1 hfind
      refine .inr (.inr ⟨i, List.mem_range.1 hi, rfl, rfl, hzero, fun j hj => ?_⟩)
      rw [← Bool.not_eq_true', hfirst j hj]
    · rename_i hfind
      refine .inl ⟨rfl, fun i hi => ?_⟩
      rw [← Bool.not_eq_true', List.find?_range_eq_none.1 hfind i hi]

theorem fits_of_divideBy :
    ∀ {signals : List Signal} {s q : Signal}, s.Fits n → (∀ t ∈ signals, t.Fits n) →
      divideBy s signals = .ok q → q.Fits n
  | [], s, q, hs, _, hq => by
    cases hq
    exact hs
  | t :: rest, s, q, hs, h, hq => by
    obtain ⟨ht, hrest⟩ := List.forall_mem_cons.1 h
    obtain ⟨p, hp, hq⟩ := bind_eq_ok.1 hq
    rw [quotient_eq_ok hp] at hq
    exact fits_of_divideBy (hs.combine ht _) hrest hq

theorem size_samples (hs : s.Fits n) : (s.samples n).size = n := by
  cases s with
  | scalar sample => exact Array.size_replicate
  | series samples => exact fits_series_iff.1 hs

end Signal

/-! ### Series on the grid -/

theorem size_align {series : TimeSeries} {grid : Grid} {samples : Array Sample}
    (h : align series grid = .ok samples) : samples.size = grid.length := by
  unfold align at h
  split at h
  · cases h
  · obtain ⟨row, hrow, h⟩ := bind_eq_ok.1 h
    cases h
    rw [List.size_toArray, ← (mapM_eq_ok_iff.1 hrow).length_eq, List.length_range]

/-- Every series of the workspace has a sample for each interval of the grid. -/
def Workspace.Fits (w : Workspace) : Prop :=
  ∀ x ∈ w.aligned, x.2.size = w.grid.length

theorem size_alignAll {grid : Grid} {inputs : Inputs} :
    ∀ {names : List String} {aligned : List (String × Array Sample)},
      alignAll grid inputs names = .ok aligned → ∀ x ∈ aligned, x.2.size = grid.length
  | [], aligned, h => by
    cases h
    exact List.forall_mem_nil _
  | name :: rest, aligned, h => by
    obtain ⟨samples, hsamples, h⟩ := bind_eq_ok.1 h
    obtain ⟨others, hothers, h⟩ := bind_eq_ok.1 h
    cases h
    refine List.forall_mem_cons.2 ⟨?_, size_alignAll hothers⟩
    unfold alignNamed at hsamples
    split at hsamples
    · exact size_align hsamples
    · cases hsamples

namespace Workspace

variable {w : Workspace}

theorem fits_prepare {grid : Grid} {inputs : Inputs} {names : List String}
    (h : prepare grid inputs names = .ok w) : w.grid = grid ∧ w.Fits := by
  obtain ⟨aligned, haligned, h⟩ := bind_eq_ok.1 h
  cases h
  exact ⟨rfl, size_alignAll haligned⟩

theorem Fits.series (hw : w.Fits) {name : String} {s : Signal} (h : w.series name = .ok s) :
    s.Fits w.grid.length := by
  unfold Workspace.series at h
  split at h
  · rename_i samples hlookup
    cases h
    obtain ⟨before, after, haligned, _⟩ := List.lookup_eq_some_iff.1 hlookup
    refine Signal.fits_series_iff.2 (hw (name, samples) ?_)
    rw [haligned]
    exact List.mem_append_right before List.mem_cons_self
  · cases h

end Workspace

/-! ### Formulas -/

theorem requireOperands_eq_ok_iff {operator : String} {result : Option (Except EvalError Signal)}
    {s : Signal} : requireOperands operator result = .ok s ↔ result = some (.ok s) := by
  cases result with
  | none => exact iff_of_false (by nofun) (by nofun)
  | some r => rw [requireOperands, Option.some.injEq]

mutual

/-- Over series that fit the grid a formula has a signal that does. -/
theorem Formula.fits_eval {w : Workspace} (hw : w.Fits) :
    ∀ {f : Formula} {s : Signal}, f.eval w = .ok s → s.Fits w.grid.length
  | .add ops, s, h => by
    obtain ⟨signals, hsignals, h⟩ := bind_eq_ok.1 h
    obtain ⟨_, hsum, hs⟩ := Option.map_eq_some_iff.1 (requireOperands_eq_ok_iff.1 h)
    cases hs
    exact Signal.fits_of_fold? (Operand.fits_evalAll hw hsignals) hsum
  | .sub a b, s, h => by
    obtain ⟨minuend, ha, h⟩ := bind_eq_ok.1 h
    obtain ⟨subtrahend, hb, h⟩ := bind_eq_ok.1 h
    cases h
    exact (Operand.fits_eval hw ha).combine (Operand.fits_eval hw hb) _
  | .mul ops, s, h => by
    obtain ⟨signals, hsignals, h⟩ := bind_eq_ok.1 h
    obtain ⟨_, hproduct, hs⟩ := Option.map_eq_some_iff.1 (requireOperands_eq_ok_iff.1 h)
    cases hs
    exact Signal.fits_of_fold? (Operand.fits_evalAll hw hsignals) hproduct
  | .div ops, s, h => by
    obtain ⟨signals, hsignals, h⟩ := bind_eq_ok.1 h
    -- the dividend fits, and with each divisor the quotient so far
    have hfits := Operand.fits_evalAll hw hsignals
    have hdivide := requireOperands_eq_ok_iff.1 h
    cases signals with
    | nil => cases hdivide
    | cons dividend divisors =>
      obtain ⟨hdividend, hdivisors⟩ := List.forall_mem_cons.1 hfits
      exact Signal.fits_of_divideBy hdividend hdivisors (Option.some.inj hdivide)
  | .pos op, s, h => by
    obtain ⟨signal, hop, h⟩ := bind_eq_ok.1 h
    cases h
    exact (Operand.fits_eval hw hop).map _
  | .operand op, s, h => Operand.fits_eval hw (f := op) h

theorem Operand.fits_eval {w : Workspace} (hw : w.Fits) :
    ∀ {f : Operand} {s : Signal}, f.eval w = .ok s → s.Fits w.grid.length
  | .meter m, s, h => by
    obtain ⟨signal, hsignal, h⟩ := bind_eq_ok.1 h
    cases h
    exact (hw.series hsignal).scale _
  | .constant c, s, h => by
    cases h
    exact Signal.fits_scalar _
  | .variable v, s, h => hw.series h
  | .nested f, s, h => Formula.fits_eval hw (f := f) h

theorem Operand.fits_evalAll {w : Workspace} (hw : w.Fits) :
    ∀ {ops : List Operand} {signals : List Signal}, Operand.evalAll w ops = .ok signals →
      ∀ s ∈ signals, s.Fits w.grid.length
  | [], signals, h => by
    cases h
    exact List.forall_mem_nil _
  | op :: rest, signals, h => by
    obtain ⟨signal, hop, h⟩ := bind_eq_ok.1 h
    obtain ⟨others, hrest, h⟩ := bind_eq_ok.1 h
    cases h
    exact List.forall_mem_cons.2 ⟨Operand.fits_eval hw hop, Operand.fits_evalAll hw hrest⟩

end

/-- A formula has samples if it is not too deep and has a signal over the series that it names. -/
theorem Formula.samples_eq_ok_iff {f : Formula} {maxDepth : Nat} {inputs : Inputs} {grid : Grid}
    {samples : Array Sample} :
    f.samples maxDepth inputs grid = .ok samples ↔
      f.depth ≤ maxDepth ∧ ∃ w signal, Workspace.prepare grid inputs f.names = .ok w ∧
        f.eval w = .ok signal ∧ samples = signal.samples grid.length := by
  unfold Formula.samples
  split
  · rename_i hdeep
    exact iff_of_false nofun fun h => absurd h.1 (Nat.not_le.2 hdeep)
  · rename_i hdepth
    rw [bind_eq_ok]
    constructor
    · rintro ⟨signal, hsignal, h⟩
      obtain ⟨w, hw, heval⟩ := bind_eq_ok.1 hsignal
      cases h
      exact ⟨Nat.not_lt.1 hdepth, w, signal, hw, heval, rfl⟩
    · rintro ⟨_, w, signal, hw, heval, rfl⟩
      exact ⟨signal, bind_eq_ok.2 ⟨w, hw, heval⟩, rfl⟩

/-- A formula that evaluates has a sample in every interval of the grid. -/
theorem Formula.size_samples {f : Formula} {maxDepth : Nat} {inputs : Inputs} {grid : Grid}
    {samples : Array Sample} (h : f.samples maxDepth inputs grid = .ok samples) :
    samples.size = grid.length := by
  obtain ⟨_, w, signal, hw, heval, rfl⟩ := Formula.samples_eq_ok_iff.1 h
  obtain ⟨rfl, hfits⟩ := Workspace.fits_prepare hw
  exact Signal.size_samples (Formula.fits_eval hfits heval)

end EnergyFormula
