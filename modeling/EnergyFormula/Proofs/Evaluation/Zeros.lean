import EnergyFormula.Proofs.Evaluation.Plain

/-!
# Where formulas fail

A formula whose series are at hand and whose operators have operands fails only with a division by
zero, and where it does it cannot be read (`Formula.failsAtZeros_eval`).  So its evaluation over a
grid is that of arithmetic on the numbers in each interval (`Formula.eval_interval_wise`).
-/

namespace EnergyFormula

/-! ### Failures -/

/-- The failure is a division by zero in the interval of its position, and in all intervals if it
has no position. -/
def EvalError.IsZeroDivision (e : EvalError) (n : Nat) (zero : Nat → Prop) : Prop :=
  e.code = .divisionByZero ∧
    match e.position with
    | some p => ∃ i < n, p = Grid.position i ∧ zero i
    | none => ∀ i < n, zero i

theorem EvalError.IsZeroDivision.imp {e : EvalError} {n : Nat} {zero zero' : Nat → Prop}
    (h : e.IsZeroDivision n zero) (himp : ∀ i < n, zero i → zero' i) : e.IsZeroDivision n zero' := by
  obtain ⟨hcode, hzero⟩ := h
  refine ⟨hcode, ?_⟩
  cases hp : e.position with
  | none =>
    rw [hp] at hzero
    exact fun i hi => himp i hi (hzero i hi)
  | some p =>
    rw [hp] at hzero
    obtain ⟨i, hi, heq, hi'⟩ := hzero
    exact ⟨i, hi, heq, himp i hi hi'⟩

section Failures

variable {α β γ δ : Type} {n : Nat}

/-- An outcome fails only with a division by zero, and where it does nothing can be read. -/
def FailsAtZeros (n : Nat) (outcome : Except EvalError α) (reading : Nat → Option β) : Prop :=
  ∀ e, outcome = .error e → e.IsZeroDivision n fun i => reading i = none

theorem FailsAtZeros.ok (a : α) (reading : Nat → Option β) : FailsAtZeros n (.ok a) reading :=
  nofun

/-- A second step that reads what the first one has fails at zeros if both steps do. -/
theorem FailsAtZeros.bind {outcome : Except EvalError α} {reading : Nat → Option β}
    {next : α → Except EvalError γ} {read : Nat → β → Option δ} {get : α → Nat → β}
    (h : FailsAtZeros n outcome reading)
    (hsound : ∀ a, outcome = .ok a → ∀ i < n, reading i = some (get a i))
    (hnext : ∀ a, outcome = .ok a → FailsAtZeros n (next a) fun i => read i (get a i)) :
    FailsAtZeros n (outcome >>= next) fun i => (reading i).bind (read i) := by
  intro e he
  rcases bind_eq_error.1 he with he | ⟨a, ha, he⟩
  · refine (h e he).imp fun i _ hnone => ?_
    exact Option.bind_eq_none_iff.2 fun b hb => by rw [hnone] at hb; cases hb
  · refine (hnext a ha e he).imp fun i hi hnone => ?_
    show (reading i).bind (read i) = none
    rw [hsound a ha i hi, Option.bind_some]
    exact hnone

end Failures

namespace Signal

variable {n : Nat} {s t : Signal}

/-- A quotient fails in the first interval with a zero divisor. -/
theorem failsAtZeros_quotient (hs : s.Fits n) (ht : t.Fits n) :
    FailsAtZeros n (quotient s t) fun i =>
      Sample.quotient? (s.sampleAt i) (t.sampleAt i) := by
  have hnone (i : Nat) (hi : ((t.sampleAt i).value == 0) = true) :
      Sample.quotient? (s.sampleAt i) (t.sampleAt i) = none := by
    rw [Sample.quotient?, if_pos hi]
  obtain ⟨hq, _⟩ | ⟨_, hq, hzero⟩ | ⟨i, hi, _, hq, hzero, _⟩ := quotient_cases hs ht
  · rw [hq]
    exact .ok _ _
  · rw [hq]
    rintro _ ⟨⟩
    exact ⟨rfl, fun i _ => hnone i (hzero i)⟩
  · rw [hq]
    rintro _ ⟨⟩
    exact ⟨rfl, i, hi, rfl, hnone i hzero⟩

theorem failsAtZeros_divideBy :
    ∀ {signals : List Signal} {s : Signal}, s.Fits n → (∀ t ∈ signals, t.Fits n) →
      FailsAtZeros n (divideBy s signals) fun i =>
        Sample.divideBy? (s.sampleAt i) (samplesAt signals i)
  | [], s, _, _ => FailsAtZeros.ok s _
  | t :: rest, s, hs, h => by
    obtain ⟨ht, hrest⟩ := List.forall_mem_cons.1 h
    have hsound : ∀ q, quotient s t = .ok q → ∀ i < n,
        Sample.quotient? (s.sampleAt i) (t.sampleAt i) = some (q.sampleAt i) := by
      intro q hq i hi
      exact (pointwise_quotient (Nat.zero_lt_of_lt hi) hs ht).sound q hq i hi
    refine (failsAtZeros_quotient hs ht).bind hsound fun q hq => ?_
    rw [quotient_eq_ok hq]
    exact failsAtZeros_divideBy (hs.combine ht _) hrest

theorem failsAtZeros_divide {signals : List Signal} (hne : signals ≠ [])
    (h : ∀ s ∈ signals, s.Fits n) :
    FailsAtZeros n (requireOperands "div" (divide? signals)) fun i =>
      Sample.divide? (samplesAt signals i) := by
  cases signals with
  | nil => exact absurd rfl hne
  | cons s rest =>
    obtain ⟨hs, hrest⟩ := List.forall_mem_cons.1 h
    exact failsAtZeros_divideBy hs hrest

theorem failsAtZeros_fold (f : Float → Float → Float) (operator : String) {signals : List Signal}
    (hne : signals ≠ []) :
    FailsAtZeros n (requireOperands operator ((fold? f signals).map .ok)) fun i =>
      Sample.fold? f (samplesAt signals i) := by
  cases signals with
  | nil => exact absurd rfl hne
  | cons s rest => exact FailsAtZeros.ok _ _

end Signal

section Failures

variable {w : Workspace}

theorem Operand.ne_nil_of_evalAll {ops : List Operand} {signals : List Signal} (hops : ops ≠ [])
    (h : Operand.evalAll w ops = .ok signals) : signals ≠ [] := by
  have hlength := Operand.length_evalAll h
  intro hsignals
  rw [hsignals, List.length_nil] at hlength
  exact hops (List.eq_nil_of_length_eq_zero hlength.symm)

/-- All series that are referred to are in the workspace. -/
def Workspace.Has (w : Workspace) (refs : List Reference) : Prop :=
  ∀ r ∈ refs, ∃ s, w.series r.name = .ok s

theorem Workspace.failsAtZeros_series {name : String} (h : ∃ s, w.series name = .ok s)
    (reading : Nat → Option Sample) : FailsAtZeros w.grid.length (w.series name) reading := by
  obtain ⟨s, hs⟩ := h
  rw [hs]
  exact FailsAtZeros.ok s reading

theorem Formula.sound_eval (hw : w.Fits) (f : Formula) (s : Signal) (h : f.eval w = .ok s)
    (i : Nat) (hi : i < w.grid.length) : f.reading (w.sampleAt? i) = some (s.sampleAt i) :=
  (Formula.pointwise_eval hw (Nat.zero_lt_of_lt hi) f).sound s h i hi

theorem Operand.sound_eval (hw : w.Fits) (op : Operand) (s : Signal) (h : op.eval w = .ok s)
    (i : Nat) (hi : i < w.grid.length) : op.reading (w.sampleAt? i) = some (s.sampleAt i) :=
  (Operand.pointwise_eval hw (Nat.zero_lt_of_lt hi) op).sound s h i hi

theorem Operand.sound_evalAll (hw : w.Fits) (ops : List Operand) (signals : List Signal)
    (h : Operand.evalAll w ops = .ok signals) (i : Nat) (hi : i < w.grid.length) :
    Operand.readings (w.sampleAt? i) ops = some (Signal.samplesAt signals i) :=
  (Operand.pointwise_evalAll hw (Nat.zero_lt_of_lt hi) ops).sound signals h i hi

mutual

/-- With all its series and operands at hand a formula fails only where it cannot be read. -/
theorem Formula.failsAtZeros_eval (hw : w.Fits) : ∀ f : Formula, f.HasOperands →
    w.Has f.allReferences →
      FailsAtZeros w.grid.length (f.eval w) fun i => f.reading (w.sampleAt? i)
  | .add ops, hf, hr => by
    obtain ⟨hne, hops⟩ := Formula.hasOperands_iff.1 hf
    refine (Operand.failsAtZeros_evalAll hw ops hops hr).bind
      (Operand.sound_evalAll hw ops) fun signals hsignals => ?_
    exact Signal.failsAtZeros_fold _ _ (Operand.ne_nil_of_evalAll hne hsignals)
  | .sub a b, hf, hr => by
    obtain ⟨_, hops⟩ := Formula.hasOperands_iff.1 hf
    obtain ⟨hra, hrb⟩ := List.forall_mem_append.1 hr
    have ha := Operand.failsAtZeros_eval hw a (hops a (by simp [Formula.operands])) hra
    have hb := Operand.failsAtZeros_eval hw b (hops b (by simp [Formula.operands])) hrb
    refine ha.bind (Operand.sound_eval hw a) fun x _ => ?_
    refine hb.bind (Operand.sound_eval hw b) fun y _ => ?_
    exact FailsAtZeros.ok _ _
  | .mul ops, hf, hr => by
    obtain ⟨hne, hops⟩ := Formula.hasOperands_iff.1 hf
    refine (Operand.failsAtZeros_evalAll hw ops hops hr).bind
      (Operand.sound_evalAll hw ops) fun signals hsignals => ?_
    exact Signal.failsAtZeros_fold _ _ (Operand.ne_nil_of_evalAll hne hsignals)
  | .div ops, hf, hr => by
    -- the only operator that fails itself
    obtain ⟨hne, hops⟩ := Formula.hasOperands_iff.1 hf
    refine (Operand.failsAtZeros_evalAll hw ops hops hr).bind
      (Operand.sound_evalAll hw ops) fun signals hsignals => ?_
    exact Signal.failsAtZeros_divide (Operand.ne_nil_of_evalAll hne hsignals)
      (Operand.fits_evalAll hw hsignals)
  | .pos op, hf, hr => by
    obtain ⟨_, hops⟩ := Formula.hasOperands_iff.1 hf
    have hop := Operand.failsAtZeros_eval hw op (hops op List.mem_cons_self) hr
    exact hop.bind (Operand.sound_eval hw op) fun s _ => FailsAtZeros.ok _ _
  | .operand op, hf, hr => by
    obtain ⟨_, hops⟩ := Formula.hasOperands_iff.1 hf
    exact Operand.failsAtZeros_eval hw op (hops op List.mem_cons_self) hr

theorem Operand.failsAtZeros_eval (hw : w.Fits) : ∀ op : Operand, op.HasOperands →
    w.Has op.allReferences →
      FailsAtZeros w.grid.length (op.eval w) fun i => op.reading (w.sampleAt? i)
  | .meter m, _, hr => by
    obtain ⟨s, hs⟩ := hr _ (List.mem_singleton.2 rfl)
    have hs : w.series m.meter.text = .ok s := hs
    rw [Operand.eval, hs]
    exact FailsAtZeros.ok _ _
  | .constant c, _, _ => FailsAtZeros.ok _ _
  | .variable v, _, hr => w.failsAtZeros_series (hr _ (List.mem_singleton.2 rfl)) _
  | .nested f, hf, hr => Formula.failsAtZeros_eval hw f hf hr

theorem Operand.failsAtZeros_evalAll (hw : w.Fits) : ∀ ops : List Operand,
    (∀ op ∈ ops, op.HasOperands) → w.Has (Operand.listReferences ops) →
      FailsAtZeros w.grid.length (Operand.evalAll w ops) fun i =>
        Operand.readings (w.sampleAt? i) ops
  | [], _, _ => FailsAtZeros.ok _ _
  | op :: rest, hops, hr => by
    obtain ⟨hop, hrest⟩ := List.forall_mem_cons.1 hops
    obtain ⟨hrop, hrrest⟩ := List.forall_mem_append.1 hr
    refine (Operand.failsAtZeros_eval hw op hop hrop).bind
      (Operand.sound_eval hw op) fun s _ => ?_
    refine (Operand.failsAtZeros_evalAll hw rest hrest hrrest).bind
      (Operand.sound_evalAll hw rest) fun signals _ => ?_
    exact FailsAtZeros.ok _ _

end

end Failures

/-! ### Main result -/

/-- The sample that an input has in an interval of the grid. -/
def Grid.inputAt (grid : Grid) (inputs : Inputs) (i : Nat) (name : String) : Sample :=
  (Inputs.sampleAt? inputs grid.resolution (grid.startOf i) name).getD .missing

/-- The number that an input has in an interval of the grid. -/
def Grid.numberAt (grid : Grid) (inputs : Inputs) (i : Nat) (name : String) : Float :=
  (grid.inputAt inputs i name).value

namespace Formula

section Prepared

variable {f : Formula} {inputs : Inputs} {grid : Grid} {w : Workspace}

theorem has_prepare (hw : Workspace.prepare grid inputs f.names = .ok w) :
    w.Has f.allReferences := by
  intro r hr
  have hname : r.name ∈ f.names := List.mem_map.2 ⟨r, mem_references.2 hr, rfl⟩
  obtain ⟨samples, hseries, _⟩ := Workspace.series_eq_ok_of_mem hw hname
  exact ⟨.series samples, hseries⟩

/-- In the workspace a formula is read with the samples of the inputs. -/
theorem reading_inputAt (hw : Workspace.prepare grid inputs f.names = .ok w) {i : Nat}
    (hi : i < grid.length) :
    f.reading (w.sampleAt? i) = f.reading fun name => some (grid.inputAt inputs i name) := by
  refine f.reading_congr fun r hr => ?_
  have hname : r.name ∈ f.names := List.mem_map.2 ⟨r, mem_references.2 hr, rfl⟩
  have hprepared := Workspace.sampleAt?_prepare hw hname hi
  obtain ⟨s, hs⟩ := has_prepare hw r hr
  have hsome : w.sampleAt? i r.name = some (s.sampleAt i) := by
    rw [Workspace.sampleAt?, hs]
    rfl
  unfold Grid.inputAt
  rw [← hprepared, hsome, Option.getD_some]

theorem value?_numberAt (hw : Workspace.prepare grid inputs f.names = .ok w) {i : Nat}
    (hi : i < grid.length) :
    f.value? (grid.numberAt inputs i) = (f.reading (w.sampleAt? i)).map Sample.value := by
  rw [reading_inputAt hw hi, value_reading]
  rfl

theorem quality_inputAt (hw : Workspace.prepare grid inputs f.names = .ok w) {i : Nat}
    (hi : i < grid.length) {x : Sample} (hx : f.reading (w.sampleAt? i) = some x) :
    x.quality = Reference.worstQuality (grid.inputAt inputs i) f.references := by
  rw [reading_inputAt hw hi] at hx
  rw [f.quality_reading _ hx]
  refine IntervalQuality.worstOf_congr fun q => ?_
  simp only [List.mem_map, mem_references]

end Prepared

/-- The evaluation of a formula over a grid is arithmetic on the numbers in each interval.  It
succeeds exactly if the formula comes to a number in all intervals, if there are any; it has then
that number in each of them, and the worst quality of the series that are referred to.  It fails
only with a division by zero, in the interval of its position or in all of them. -/
theorem eval_interval_wise {f : Formula} {inputs : Inputs} {grid : Grid} {w : Workspace}
    (hw : Workspace.prepare grid inputs f.names = .ok w) (hf : f.HasOperands) :
    (0 < grid.length →
      ((∃ s, f.eval w = .ok s) ↔
        ∀ i < grid.length, ∃ v, f.value? (grid.numberAt inputs i) = some v)) ∧
      (∀ s, f.eval w = .ok s →
        (s.samples grid.length).size = grid.length ∧
          ∀ i < grid.length, ∃ x, (s.samples grid.length)[i]? = some x ∧
            f.value? (grid.numberAt inputs i) = some x.value ∧
              x.quality = Reference.worstQuality (grid.inputAt inputs i) f.references) ∧
        ∀ e, f.eval w = .error e →
          e.IsZeroDivision grid.length fun i => f.DividesByZero (grid.numberAt inputs i) := by
  obtain ⟨hgrid, hfits⟩ := Workspace.fits_prepare hw
  have hsound : ∀ s, f.eval w = .ok s → ∀ i < grid.length,
      f.reading (w.sampleAt? i) = some (s.sampleAt i) := by
    rw [← hgrid]
    exact sound_eval hfits f
  refine ⟨fun hn => ⟨?_, fun hvalues => ?_⟩, fun s hs => ⟨?_, fun i hi => ?_⟩, fun e he => ?_⟩
  · rintro ⟨s, hs⟩ i hi
    rw [value?_numberAt hw hi, hsound s hs i hi]
    exact ⟨_, rfl⟩
  · rw [← hgrid] at hn
    refine (pointwise_eval hfits hn f).complete fun i hi => ?_
    rw [hgrid] at hi
    obtain ⟨v, hv⟩ := hvalues i hi
    rw [value?_numberAt hw hi] at hv
    obtain ⟨x, hx, _⟩ := Option.map_eq_some_iff.1 hv
    exact ⟨x, hx⟩
  · exact Signal.size_samples (hgrid ▸ fits_eval hfits hs)
  · have hread := hsound s hs i hi
    have hsize : i < (s.samples grid.length).size := by
      rw [Signal.size_samples (hgrid ▸ fits_eval hfits hs)]
      exact hi
    have hget : (s.samples grid.length)[i]? = some (s.sampleAt i) := by
      rw [← Signal.sampleOf_samples hi]
      simp [sampleOf, hsize]
    refine ⟨s.sampleAt i, hget, ?_, quality_inputAt hw hi hread⟩
    rw [value?_numberAt hw hi, hread]
    rfl
  · have hzero := failsAtZeros_eval hfits f hf (has_prepare hw) e he
    rw [hgrid] at hzero
    refine hzero.imp fun i hi (hnone : f.reading (w.sampleAt? i) = none) => ?_
    rw [← value?_eq_none_iff hf, value?_numberAt hw hi, hnone]
    rfl

end Formula

/-- The reciprocal of a series. -/
def Formula.reciprocal : Formula :=
  .div [.constant .one, .variable .x]

/-- Two hours. -/
def Grid.twoHours : Grid :=
  ⟨⟨⟨0, 0⟩, ⟨7200, 0⟩⟩, .hour, 2, by decide, by decide⟩

/-- A series that is zero in the second hour. -/
def Inputs.fading : Inputs :=
  [("x", .ofValues "x" "KWH" .hour ⟨0, 0⟩ [4, 0])]

theorem Formula.hasOperands_reciprocal : reciprocal.HasOperands := by
  refine hasOperands_of_nested (by decide) fun g hg => ?_
  simp [reciprocal, operands] at hg

/-- The zero divisor of the second hour is reported there. -/
theorem Formula.eval_interval_wise_reciprocal :
    reciprocal.HasOperands ∧ ∃ w e, Workspace.prepare .twoHours .fading reciprocal.names = .ok w ∧
      reciprocal.eval w = .error e ∧ e.code = .divisionByZero ∧ e.position = some 2 ∧
        reciprocal.DividesByZero (Grid.twoHours.numberAt .fading 1) := by
  have hnames : reciprocal.names = ["x"] := by decide +kernel
  have hprepare : ∃ w, Workspace.prepare .twoHours .fading reciprocal.names = .ok w ∧
      reciprocal.eval w = .error (.atPosition .divisionByZero (Grid.position 1)) := by
    rw [hnames]
    exact ⟨_, rfl, rfl⟩
  obtain ⟨w, hw, he⟩ := hprepare
  obtain ⟨_, _, hfails⟩ := eval_interval_wise hw hasOperands_reciprocal
  obtain ⟨hcode, i, _, hposition, hzero⟩ := hfails _ he
  -- positions count from one
  have hi : i = 1 := by
    unfold Grid.position at hposition
    omega
  subst hi
  exact ⟨hasOperands_reciprocal, w, _, hw, he, hcode, rfl, hzero⟩

/-- One divided by zero. -/
def Formula.overZero : Formula :=
  .div [.constant .one, .constant ⟨"0", 0, by decide, by decide, .inl rfl⟩]

theorem Formula.hasOperands_overZero : overZero.HasOperands := by
  refine hasOperands_of_nested (by decide) fun g hg => ?_
  simp [overZero, operands] at hg

/-- From the leap second at the end of 2016 to midnight no time passes, and there is no interval. -/
def Grid.leapSecond : Grid :=
  ⟨⟨⟨1483228799, 1000000000⟩, ⟨1483228800, 0⟩⟩, .hour, 0, by decide, by decide⟩

/-- Without any interval a division by a zero that is a constant still fails. -/
theorem Formula.eval_overZero_leapSecond :
    ∃ w, Workspace.prepare .leapSecond [] overZero.names = .ok w ∧ overZero.HasOperands ∧
      (∀ i < Grid.leapSecond.length,
        ∃ v, overZero.value? (Grid.leapSecond.numberAt [] i) = some v) ∧
        ¬ ∃ s, overZero.eval w = .ok s := by
  have hnames : overZero.names = [] := by decide +kernel
  refine ⟨⟨.leapSecond, []⟩, by rw [hnames]; rfl, hasOperands_overZero, nofun, ?_⟩
  have hfails : (overZero.eval ⟨.leapSecond, []⟩).toOption.isSome = false := by decide +kernel
  rintro ⟨s, hs⟩
  rw [hs] at hfails
  cases hfails

end EnergyFormula
