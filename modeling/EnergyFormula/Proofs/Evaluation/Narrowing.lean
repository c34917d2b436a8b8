import EnergyFormula.Proofs.Evaluation.Buckets

/-!
# Evaluation over one interval

A formula that is evaluated over a grid is evaluated over each interval of it alone, and has there
the sample that it has on the whole grid.  Where it fails in an interval, it fails over that interval
alone in the same way.

* `NarrowsTo`: an outcome over a grid, and its outcomes over the intervals alone; `NarrowsTo.bind`
  goes from step to step.
* `Formula.narrowsTo_eval`: the evaluation of a formula in a workspace narrows.
* `Formula.narrowsTo_samples`: so do the samples of a formula over its inputs.
-/

namespace EnergyFormula

/-! ### Grids of one interval -/

namespace Grid

variable {g : Grid}

theorem eq_of_period_eq {g' : Grid} (hperiod : g.period = g'.period)
    (hresolution : g.resolution = g'.resolution) : g = g' := by
  have hbuild : build g'.period g'.resolution = .ok g := build_eq_ok_iff.2 ⟨hperiod, hresolution⟩
  rw [build_eq_ok_iff.2 ⟨rfl, rfl⟩] at hbuild
  exact (Except.ok.inj hbuild).symm

theorem periodOf_outsideLeaps (hg : g.period.OutsideLeaps) (i : Nat) :
    (g.periodOf i).OutsideLeaps :=
  ⟨not_isLeap_startOf hg i, not_isLeap_startOf hg (i + 1)⟩

/-- The grid of one interval of a grid. -/
def narrow (g : Grid) (hg : g.period.OutsideLeaps) (i : Nat) : Grid where
  period := g.periodOf i
  resolution := g.resolution
  length := 1
  nonempty := (startOf_lt_startOf_iff hg).2 (Nat.lt_succ_self i)
  whole := by
    rw [Resolution.stepsIn?_eq_some_iff (periodOf_outsideLeaps hg i), periodOf,
      ← startOf_succ hg i, Resolution.span, Nat.mul_one]

theorem startOf_narrow_zero (hg : g.period.OutsideLeaps) (i : Nat) :
    (g.narrow hg i).startOf 0 = g.startOf i :=
  startOf_zero _

end Grid

/-! ### Outcomes over the intervals alone -/

section NarrowsTo

variable {α α' β β' : Type} {n : Nat} {cause : EvalCause}

/-- What comes out over a grid of `n` intervals comes out narrowed over each of them alone.  A
failure in an interval has the given cause, and is the failure over that interval alone, where it is
the first one. -/
structure NarrowsTo (n : Nat) (narrow : α → Nat → α') (cause : EvalCause)
    (outcome : Except EvalError α) (alone : Nat → Except EvalError α') : Prop where
  ok : ∀ a, outcome = .ok a → ∀ i < n, alone i = .ok (narrow a i)
  error : ∀ e, outcome = .error e → e.position = none ∨
    ∃ i < n, e = .atPosition cause (Grid.position i) ∧
      alone i = .error (.atPosition cause (Grid.position 0))

theorem NarrowsTo.of_ok {narrow : α → Nat → α'} {alone : Nat → Except EvalError α'} {a : α}
    (h : ∀ i < n, alone i = .ok (narrow a i)) : NarrowsTo n narrow cause (.ok a) alone where
  ok b hb i hi := by
    cases hb
    exact h i hi
  error := nofun

/-- A failure of the whole evaluation need not be that of an interval. -/
theorem NarrowsTo.of_position_eq_none {narrow : α → Nat → α'}
    {alone : Nat → Except EvalError α'} {e : EvalError} (h : e.position = none) :
    NarrowsTo n narrow cause (.error e) alone where
  ok := nofun
  error e' he' := by
    cases he'
    exact .inl h

/-- A second step that takes what the first one has narrows with it. -/
theorem NarrowsTo.bind {narrow : α → Nat → α'} {narrow' : β → Nat → β'}
    {outcome : Except EvalError α} {alone : Nat → Except EvalError α'}
    {next : α → Except EvalError β} {nextAlone : Nat → α' → Except EvalError β'}
    (h : NarrowsTo n narrow cause outcome alone)
    (hnext : ∀ a, outcome = .ok a →
      NarrowsTo n narrow' cause (next a) fun i => nextAlone i (narrow a i)) :
    NarrowsTo n narrow' cause (outcome >>= next) fun i => alone i >>= nextAlone i where
  ok b hb i hi := by
    obtain ⟨a, ha, hb⟩ := bind_eq_ok.1 hb
    exact bind_eq_ok.2 ⟨_, h.ok a ha i hi, (hnext a ha).ok b hb i hi⟩
  error e he := by
    rcases bind_eq_error.1 he with he | ⟨a, ha, he⟩
    · refine (h.error e he).imp_right ?_
      rintro ⟨i, hi, heq, halone⟩
      exact ⟨i, hi, heq, bind_eq_error.2 (.inl halone)⟩
    · refine ((hnext a ha).error e he).imp_right ?_
      rintro ⟨i, hi, heq, halone⟩
      exact ⟨i, hi, heq, bind_eq_error.2 (.inr ⟨_, h.ok a ha i hi, halone⟩)⟩

end NarrowsTo

/-! ### Operators -/

namespace Signal

variable {n i : Nat} {s t : Signal}

/-- What a signal is over one interval. -/
def narrow : Signal → Nat → Signal
  | scalar x, _ => scalar x
  | series samples, i => series #[sampleOf samples i]

theorem sampleAt_narrow (s : Signal) (i : Nat) : (s.narrow i).sampleAt 0 = s.sampleAt i := by
  cases s <;> rfl

theorem commonLength?_narrow (s t : Signal) (i : Nat) :
    commonLength? (s.narrow i) (t.narrow i) = (commonLength? s t).map fun _ => 1 := by
  cases s <;> cases t <;> rfl

theorem narrow_map (hs : s.Fits n) (hi : i < n) (f : Float → Float) :
    (s.map f).narrow i = (s.narrow i).map f := by
  have hsample := sampleAt_map hs hi f
  cases s with
  | scalar x => rfl
  | series samples =>
    refine (congrArg (fun x => series #[x]) hsample).trans ?_
    show _ = series (Array.map _ _)
    rw [List.map_toArray]
    rfl

theorem narrow_combine (hs : s.Fits n) (ht : t.Fits n) (hi : i < n)
    (f : Float → Float → Float) :
    (combine f s t).narrow i = combine f (s.narrow i) (t.narrow i) := by
  have hsample := sampleAt_combine hs ht hi f
  have hcommon := commonLength?_narrow s t i
  unfold combine at hsample ⊢
  rw [hcommon]
  cases h : commonLength? s t with
  | none =>
    rw [h] at hsample
    rw [Option.map_none, sampleAt_narrow, sampleAt_narrow]
    exact congrArg scalar hsample
  | some m =>
    rw [h] at hsample
    have hone (g : Fin 1 → Sample) : Array.ofFn g = #[g 0] := by
      rw [Array.ofFn_succ, Array.ofFn_zero]
      rfl
    dsimp only [Option.map_some]
    rw [hone]
    show series #[_] = series #[join f ((s.narrow i).sampleAt 0) ((t.narrow i).sampleAt 0)]
    rw [sampleAt_narrow, sampleAt_narrow, ← hsample]
    rfl

theorem narrow_foldl (hi : i < n) (f : Float → Float → Float) {signals : List Signal}
    (hs : s.Fits n) (h : ∀ t ∈ signals, t.Fits n) :
    (signals.foldl (combine f) s).narrow i =
      (signals.map fun t => t.narrow i).foldl (combine f) (s.narrow i) := by
  induction signals generalizing s with
  | nil => rfl
  | cons t rest ih =>
    obtain ⟨ht, hrest⟩ := List.forall_mem_cons.1 h
    rw [List.foldl_cons, ih (hs.combine ht f) hrest, narrow_combine hs ht hi]
    rfl

/-- What several signals are over one interval. -/
def narrowAll (signals : List Signal) (i : Nat) : List Signal :=
  signals.map fun s => s.narrow i

theorem narrowsTo_fold (f : Float → Float → Float) (operator : String) (cause : EvalCause)
    {signals : List Signal} (h : ∀ s ∈ signals, s.Fits n) :
    NarrowsTo n narrow cause (requireOperands operator ((fold? f signals).map .ok)) fun i =>
      requireOperands operator ((fold? f (narrowAll signals i)).map .ok) := by
  cases signals with
  | nil => exact .of_position_eq_none rfl
  | cons s rest =>
    obtain ⟨hs, hrest⟩ := List.forall_mem_cons.1 h
    refine .of_ok fun i hi => ?_
    rw [narrow_foldl hi f hs hrest]
    rfl

/-- The first interval with a zero divisor is the one that fails alone. -/
theorem narrowsTo_quotient (hs : s.Fits n) (ht : t.Fits n) :
    NarrowsTo n narrow .divisionByZero (quotient s t) fun i =>
      quotient (s.narrow i) (t.narrow i) := by
  have halone (i : Nat) : quotient (s.narrow i) (t.narrow i) =
      if (t.sampleAt i).value == 0 then
        .error ⟨.divisionByZero, (commonLength? s t).map fun _ => Grid.position 0⟩
      else .ok (combine (· / ·) (s.narrow i) (t.narrow i)) := by
    unfold quotient
    rw [commonLength?_narrow]
    cases commonLength? s t with
    | none => rw [Option.map_none, sampleAt_narrow]; rfl
    | some m =>
      have hrange : List.range 1 = [0] := rfl
      dsimp only [Option.map_some]
      rw [hrange, List.find?_cons, sampleAt_narrow]
      cases (t.sampleAt i).value == 0 <;> rfl
  obtain ⟨hq, hnonzero⟩ | ⟨_, hq, _⟩ | ⟨i, hi, hcommon, hq, hzero, _⟩ := quotient_cases hs ht
  · rw [hq]
    refine .of_ok fun i hi => ?_
    rw [halone, if_neg (ne_true_of_eq_false (hnonzero i hi)), narrow_combine hs ht hi]
  · rw [hq]
    exact .of_position_eq_none rfl
  · rw [hq]
    refine ⟨nofun, ?_⟩
    rintro _ ⟨⟩
    refine .inr ⟨i, hi, rfl, ?_⟩
    rw [halone, if_pos hzero, hcommon]
    rfl

theorem narrowsTo_divideBy :
    ∀ {signals : List Signal} {s : Signal}, s.Fits n → (∀ t ∈ signals, t.Fits n) →
      NarrowsTo n narrow .divisionByZero (divideBy s signals) fun i =>
        divideBy (s.narrow i) (narrowAll signals i)
  | [], s, _, _ => .of_ok fun _ _ => rfl
  | t :: rest, s, hs, h => by
    obtain ⟨ht, hrest⟩ := List.forall_mem_cons.1 h
    refine (narrowsTo_quotient hs ht).bind fun q hq => ?_
    rw [quotient_eq_ok hq]
    exact narrowsTo_divideBy (hs.combine ht _) hrest

theorem narrowsTo_divide {signals : List Signal} (h : ∀ s ∈ signals, s.Fits n) :
    NarrowsTo n narrow .divisionByZero (requireOperands "div" (divide? signals)) fun i =>
      requireOperands "div" (divide? (narrowAll signals i)) := by
  cases signals with
  | nil => exact .of_position_eq_none rfl
  | cons s rest =>
    obtain ⟨hs, hrest⟩ := List.forall_mem_cons.1 h
    exact narrowsTo_divideBy hs hrest

end Signal

/-! ### Formulas -/

/-- What the series of a workspace are over one interval, on a grid of its own. -/
def Workspace.narrow (w : Workspace) (part : Nat → Grid) (i : Nat) : Workspace :=
  ⟨part i, w.aligned.map fun x => (x.1, #[sampleOf x.2 i])⟩

theorem lookup_map_snd {α β : Type} (f : α → β) (name : String) (entries : List (String × α)) :
    (entries.map fun x => (x.1, f x.2)).lookup name = (entries.lookup name).map f := by
  induction entries with
  | nil => rfl
  | cons entry rest ih =>
    rw [List.map_cons, List.lookup_cons, List.lookup_cons, ih]
    cases name == entry.1 <;> rfl

section Formulas

variable {w : Workspace} {part : Nat → Grid} {cause : EvalCause}

theorem Workspace.narrowsTo_series (n : Nat) (name : String) :
    NarrowsTo n Signal.narrow cause (w.series name) fun i => (w.narrow part i).series name := by
  have halone (i : Nat) : (w.narrow part i).aligned.lookup name =
      (w.aligned.lookup name).map fun samples => #[sampleOf samples i] :=
    lookup_map_snd (fun samples => #[sampleOf samples i]) name w.aligned
  unfold Workspace.series
  cases h : w.aligned.lookup name with
  | none => exact .of_position_eq_none rfl
  | some samples =>
    refine .of_ok fun i _ => ?_
    rw [halone, h]
    rfl

mutual

/-- Over series that fit the grid the evaluation of a formula narrows to its intervals. -/
theorem Formula.narrowsTo_eval (hw : w.Fits) :
    ∀ f : Formula, NarrowsTo w.grid.length Signal.narrow .divisionByZero (f.eval w) fun i =>
      f.eval (w.narrow part i)
  | .add ops => (Operand.narrowsTo_evalAll hw ops).bind fun _ hsignals =>
      Signal.narrowsTo_fold (· + ·) "add" _ (Operand.fits_evalAll hw hsignals)
  | .sub a b => by
    refine (Operand.narrowsTo_eval hw a).bind fun x hx => ?_
    refine (Operand.narrowsTo_eval hw b).bind fun y hy => ?_
    refine .of_ok fun i hi => ?_
    rw [Signal.narrow_combine (Operand.fits_eval hw hx) (Operand.fits_eval hw hy) hi]
    rfl
  | .mul ops => (Operand.narrowsTo_evalAll hw ops).bind fun _ hsignals =>
      Signal.narrowsTo_fold (· * ·) "mul" _ (Operand.fits_evalAll hw hsignals)
  | .div ops => (Operand.narrowsTo_evalAll hw ops).bind fun _ hsignals =>
      Signal.narrowsTo_divide (Operand.fits_evalAll hw hsignals)
  | .pos op => by
    refine (Operand.narrowsTo_eval hw op).bind fun s hs => .of_ok fun i hi => ?_
    rw [Signal.abs, Signal.narrow_map (Operand.fits_eval hw hs) hi]
    rfl
  | .operand op => Operand.narrowsTo_eval hw op

theorem Operand.narrowsTo_eval (hw : w.Fits) :
    ∀ op : Operand, NarrowsTo w.grid.length Signal.narrow .divisionByZero (op.eval w) fun i =>
      op.eval (w.narrow part i)
  | .meter m => by
    refine (Workspace.narrowsTo_series _ m.meter.text).bind fun s hs => .of_ok fun i hi => ?_
    rw [Signal.scale_eq_map, Signal.scale_eq_map, Signal.narrow_map (hw.series hs) hi]
    rfl
  | .constant c => .of_ok fun _ _ => rfl
  | .variable v => Workspace.narrowsTo_series _ v.text
  | .nested f => Formula.narrowsTo_eval hw f

theorem Operand.narrowsTo_evalAll (hw : w.Fits) :
    ∀ ops : List Operand, NarrowsTo w.grid.length Signal.narrowAll .divisionByZero
      (Operand.evalAll w ops) fun i => Operand.evalAll (w.narrow part i) ops
  | [] => .of_ok fun _ _ => rfl
  | op :: rest => (Operand.narrowsTo_eval hw op).bind fun _ _ =>
      (Operand.narrowsTo_evalAll hw rest).bind fun _ _ => .of_ok fun _ _ => rfl

end

end Formulas

/-! ### Inputs -/

section Inputs

variable {g : Grid} {inputs : Inputs} {cause : EvalCause}

/-- A series that can be brought onto a grid can be brought onto each interval of it. -/
theorem TimeSeries.AlignsWith.periodOf {s : TimeSeries} (hs : ¬ s.period.start.IsLeap)
    (hg : g.period.OutsideLeaps) {i : Nat} (hi : i < g.length)
    (h : s.AlignsWith g.resolution g.period) : s.AlignsWith g.resolution (g.periodOf i) := by
  refine ⟨h.evaluable, h.finer, h.divides, ?_, ?_⟩
  · exact (Resolution.isAligned_after hs hg.1 h.divides i).trans h.inPhase
  · have hcovers := h.covers
    have hstart : g.period.start ≤ g.startOf i := by
      rw [← Grid.startOf_zero, Grid.startOf_le_startOf_iff hg]
      exact Nat.zero_le i
    have hstop : g.startOf (i + 1) ≤ g.period.stop := by
      rw [← Grid.startOf_length hg, Grid.startOf_le_startOf_iff hg]
      exact hi
    simp only [Period.covers, Bool.and_eq_true, decide_eq_true_eq] at hcovers ⊢
    exact ⟨Int.le_trans hcovers.1 hstart, Int.le_trans hstop hcovers.2⟩

/-- Over one interval a series has the sample that it has there on the grid. -/
theorem align_narrow {s : TimeSeries} {samples : Array Sample} (hs : ¬ s.period.start.IsLeap)
    (hg : g.period.OutsideLeaps) (h : align s g = .ok samples) {i : Nat} (hi : i < g.length) :
    align s (g.narrow hg i) = .ok #[sampleOf samples i] := by
  have haligns := alignsWith_of_align h
  have hread := (pointwise_align haligns).sound samples h i hi
  have halignsPart : s.AlignsWith (g.narrow hg i).resolution (g.narrow hg i).period :=
    haligns.periodOf hs hg hi
  have hpart := pointwise_align halignsPart
  have hread' : ∀ j < (g.narrow hg i).length, s.bucket?
      ((g.narrow hg i).resolution.seconds / s.resolution.seconds) ((g.narrow hg i).startOf j) =
        some (sampleOf samples i) := by
    intro j hj
    obtain rfl := Nat.lt_one_iff.1 hj
    rw [Grid.startOf_narrow_zero]
    exact hread
  obtain ⟨row, hrow⟩ := hpart.complete fun j hj => ⟨_, hread' j hj⟩
  have hsample := (hpart.sound row hrow 0 Nat.one_pos).symm.trans (hread' 0 Nat.one_pos)
  -- the only sample is the one at the start of the interval
  obtain ⟨x, rfl⟩ := Array.size_eq_one_iff.1 (size_align hrow)
  rw [hrow, ← Option.some.inj hsample]
  rfl

theorem narrowsTo_alignNamed (hinputs : ∀ x ∈ inputs, x.2.OutsideLeaps)
    (hg : g.period.OutsideLeaps) (name : String) :
    NarrowsTo g.length (fun samples i => #[sampleOf samples i]) cause (alignNamed g inputs name)
      fun i => alignNamed (g.narrow hg i) inputs name := by
  unfold alignNamed
  cases hlookup : inputs.lookup name with
  | none => exact .of_position_eq_none rfl
  | some s =>
    obtain ⟨before, after, rfl, _⟩ := List.lookup_eq_some_iff.1 hlookup
    have hs := hinputs (name, s) (List.mem_append_right before List.mem_cons_self)
    refine ⟨fun samples hsamples i hi => align_narrow hs.1.1 hg hsamples hi, fun e he => ?_⟩
    exact .inl (TimeSeries.cause_of_align_error hs hg he).1

theorem narrowsTo_alignAll (hinputs : ∀ x ∈ inputs, x.2.OutsideLeaps)
    (hg : g.period.OutsideLeaps) :
    ∀ names : List String, NarrowsTo g.length
      (fun aligned i => aligned.map fun x => (x.1, #[sampleOf x.2 i])) cause
        (alignAll g inputs names) fun i => alignAll (g.narrow hg i) inputs names
  | [] => .of_ok fun _ _ => rfl
  | name :: rest => (narrowsTo_alignNamed hinputs hg name).bind fun _ _ =>
      (narrowsTo_alignAll hinputs hg rest).bind fun _ _ => .of_ok fun _ _ => rfl

theorem Workspace.narrowsTo_prepare (hinputs : ∀ x ∈ inputs, x.2.OutsideLeaps)
    (hg : g.period.OutsideLeaps) (names : List String) :
    NarrowsTo g.length (fun w i => w.narrow (g.narrow hg) i) cause (prepare g inputs names)
      fun i => prepare (g.narrow hg i) inputs names :=
  (narrowsTo_alignAll hinputs hg names).bind fun _ _ => .of_ok fun _ _ => rfl

theorem Signal.samples_narrow (s : Signal) {n i : Nat} (hi : i < n) :
    (s.narrow i).samples 1 = #[sampleOf (s.samples n) i] := by
  rw [sampleOf_samples hi]
  cases s <;> rfl

/-- The samples of a formula narrow to the intervals of the grid; it fails in an interval only with
a division by zero. -/
theorem Formula.narrowsTo_samples (hinputs : ∀ x ∈ inputs, x.2.OutsideLeaps)
    (hg : g.period.OutsideLeaps) (maxDepth : Nat) (f : Formula) :
    NarrowsTo g.length (fun samples i => #[sampleOf samples i]) .divisionByZero
      (f.samples maxDepth inputs g) fun i => f.samples maxDepth inputs (g.narrow hg i) := by
  unfold Formula.samples
  split
  · exact .of_position_eq_none rfl
  · have hsignal : NarrowsTo g.length Signal.narrow .divisionByZero (f.signal inputs g)
        fun i => f.signal inputs (g.narrow hg i) := by
      refine (Workspace.narrowsTo_prepare hinputs hg f.names).bind fun w hw => ?_
      obtain ⟨rfl, hfits⟩ := Workspace.fits_prepare hw
      exact narrowsTo_eval hfits f
    refine hsignal.bind fun s _ => .of_ok fun i hi => ?_
    exact congrArg Except.ok (s.samples_narrow hi)

end Inputs

end EnergyFormula
