import EnergyFormula.Proofs.Evaluation.Shape
import EnergyFormula.Proofs.Evaluation.Signal

/-!
# Formulas interval by interval

A formula is read at one interval with a sample for each of its series (`Formula.reading`): sums and
products from left to right, and quotients as long as no divisor is zero.  The evaluation over a
whole grid succeeds exactly if the formula can be read at every interval, and has there the sample
that is read (`Formula.pointwise_eval`).  The samples of other series than those that it names do
not matter (`Formula.reading_congr`).
-/

namespace EnergyFormula

/-! ### Readings -/

namespace Sample

/-- The value changed, the quality kept. -/
def map (f : Float → Float) (x : Sample) : Sample :=
  ⟨f x.value, x.quality⟩

/-- The first sample joined with each of the others in turn. -/
def fold? (f : Float → Float → Float) : List Sample → Option Sample
  | [] => none
  | x :: rest => some (rest.foldl (Signal.join f) x)

/-- The quotient, unless the divisor is zero. -/
def quotient? (x y : Sample) : Option Sample :=
  if y.value == 0 then none else some (Signal.join (· / ·) x y)

/-- The sample divided by each of several divisors in turn. -/
def divideBy? (x : Sample) : List Sample → Option Sample
  | [] => some x
  | y :: rest => (quotient? x y).bind fun q => divideBy? q rest

/-- The first sample divided by the others, from left to right. -/
def divide? : List Sample → Option Sample
  | [] => none
  | x :: rest => divideBy? x rest

end Sample

mutual

/-- The formula read with a sample for each name, if there is one. -/
def Formula.reading (input : String → Option Sample) : Formula → Option Sample
  | .add ops => (Operand.readings input ops).bind (Sample.fold? (· + ·))
  | .sub a b =>
    (a.reading input).bind fun x => (b.reading input).bind fun y => some (Signal.join (· - ·) x y)
  | .mul ops => (Operand.readings input ops).bind (Sample.fold? (· * ·))
  | .div ops => (Operand.readings input ops).bind Sample.divide?
  | .pos op => (op.reading input).bind fun x => some (x.map Float.abs)
  | .operand op => op.reading input

/-- The operand read with a sample for each name. -/
def Operand.reading (input : String → Option Sample) : Operand → Option Sample
  | .meter m => (input m.meter.text).bind fun x => some (x.map (· * m.effectiveFactor))
  | .constant c => some (.validated c.value)
  | .variable v => input v.text
  | .nested f => f.reading input

/-- Several operands read, if all of them can be. -/
def Operand.readings (input : String → Option Sample) : List Operand → Option (List Sample)
  | [] => some []
  | op :: rest =>
    (op.reading input).bind fun x => (Operand.readings input rest).bind fun xs => some (x :: xs)

end

/-! ### Outcomes read at intervals -/

section Pointwise

variable {α β γ δ : Type} {n : Nat}

/-- Over `n` intervals an outcome has in each of them what is read there, and it succeeds if
something is read in each. -/
structure Pointwise (n : Nat) (get : α → Nat → β) (outcome : Except EvalError α)
    (reading : Nat → Option β) : Prop where
  sound : ∀ a, outcome = .ok a → ∀ i < n, reading i = some (get a i)
  complete : (∀ i < n, ∃ b, reading i = some b) → ∃ a, outcome = .ok a

theorem Pointwise.ok (get : α → Nat → β) (a : α) :
    Pointwise n get (.ok a) fun i => some (get a i) where
  sound b hb i _ := by
    cases hb
    rfl
  complete _ := ⟨a, rfl⟩

/-- An error is right where nothing can be read in one of the intervals. -/
theorem Pointwise.error (get : α → Nat → β) (e : EvalError) {reading : Nat → Option β} {i : Nat}
    (hi : i < n) (hnone : reading i = none) : Pointwise n get (.error e) reading where
  sound _ ha := nomatch ha
  complete hread := by
    obtain ⟨b, hb⟩ := hread i hi
    rw [hnone] at hb
    cases hb

/-- What is read in a second step is read with what the first one has there. -/
theorem Pointwise.bind {get : α → Nat → β} {get' : γ → Nat → δ} {outcome : Except EvalError α}
    {reading : Nat → Option β} {next : α → Except EvalError γ} {read : Nat → β → Option δ}
    (h : Pointwise n get outcome reading)
    (hnext : ∀ a, outcome = .ok a → Pointwise n get' (next a) fun i => read i (get a i)) :
    Pointwise n get' (outcome >>= next) fun i => (reading i).bind (read i) where
  sound c hc i hi := by
    obtain ⟨a, ha, hc⟩ := bind_eq_ok.1 hc
    rw [h.sound a ha i hi, Option.bind_some]
    exact (hnext a ha).sound c hc i hi
  complete hread := by
    obtain ⟨a, ha⟩ := h.complete fun i hi => by
      obtain ⟨d, hd⟩ := hread i hi
      obtain ⟨b, hb, _⟩ := Option.bind_eq_some_iff.1 hd
      exact ⟨b, hb⟩
    obtain ⟨c, hc⟩ := (hnext a ha).complete fun i hi => by
      obtain ⟨d, hd⟩ := hread i hi
      rw [h.sound a ha i hi, Option.bind_some] at hd
      exact ⟨d, hd⟩
    exact ⟨c, bind_eq_ok.2 ⟨a, ha, hc⟩⟩

/-- A function of the outcome that has the same in each interval. -/
theorem Pointwise.map {get : α → Nat → β} {get' : γ → Nat → β} {outcome : Except EvalError α}
    {reading : Nat → Option β} (h : Pointwise n get outcome reading) (f : α → γ)
    (hget : ∀ a, outcome = .ok a → ∀ i < n, get' (f a) i = get a i) :
    Pointwise n get' (outcome >>= fun a => .ok (f a)) reading where
  sound c hc i hi := by
    obtain ⟨a, ha, hc⟩ := bind_eq_ok.1 hc
    cases hc
    rw [hget a ha i hi]
    exact h.sound a ha i hi
  complete hread := by
    obtain ⟨a, ha⟩ := h.complete hread
    exact ⟨f a, bind_eq_ok.2 ⟨a, ha, rfl⟩⟩

theorem Pointwise.congr {get : α → Nat → β} {outcome : Except EvalError α}
    {reading reading' : Nat → Option β} (h : Pointwise n get outcome reading)
    (heq : ∀ i < n, reading' i = reading i) : Pointwise n get outcome reading' where
  sound a ha i hi := (heq i hi).trans (h.sound a ha i hi)
  complete hread := h.complete fun i hi => by
    rw [← heq i hi]
    exact hread i hi

end Pointwise

/-! ### Operators -/

namespace Signal

variable {n i : Nat} {s t : Signal}

theorem sampleAt_map (hs : s.Fits n) (hi : i < n) (f : Float → Float) :
    (s.map f).sampleAt i = (s.sampleAt i).map f := by
  cases s with
  | scalar x => rfl
  | series samples =>
    have hsize : i < samples.size := by
      rw [fits_series_iff.1 hs]
      exact hi
    simp [Signal.map, Signal.sampleAt, Sample.map, hsize]

theorem sampleAt_combine (hs : s.Fits n) (ht : t.Fits n) (hi : i < n)
    (f : Float → Float → Float) :
    (combine f s t).sampleAt i = join f (s.sampleAt i) (t.sampleAt i) := by
  refine combine_sampleAt f s t i fun m hm => ?_
  rw [hs.commonLength? ht m hm]
  exact hi

theorem sampleAt_foldl (hi : i < n) (f : Float → Float → Float) {signals : List Signal}
    (hs : s.Fits n) (h : ∀ t ∈ signals, t.Fits n) :
    (signals.foldl (combine f) s).sampleAt i =
      (signals.map fun t => t.sampleAt i).foldl (join f) (s.sampleAt i) := by
  induction signals generalizing s with
  | nil => rfl
  | cons t rest ih =>
    obtain ⟨ht, hrest⟩ := List.forall_mem_cons.1 h
    rw [List.foldl_cons, ih (hs.combine ht f) hrest, sampleAt_combine hs ht hi]
    rfl

/-- Of several signals the samples in one interval. -/
def samplesAt (signals : List Signal) (i : Nat) : List Sample :=
  signals.map fun s => s.sampleAt i

/-- A fold has in each interval the fold of the samples there. -/
theorem pointwise_fold (hn : 0 < n) (f : Float → Float → Float) (operator : String)
    {signals : List Signal} (h : ∀ s ∈ signals, s.Fits n) :
    Pointwise n sampleAt (requireOperands operator ((fold? f signals).map .ok)) fun i =>
      Sample.fold? f (samplesAt signals i) := by
  cases signals with
  | nil => exact Pointwise.error sampleAt _ hn rfl
  | cons s rest =>
    obtain ⟨hs, hrest⟩ := List.forall_mem_cons.1 h
    refine (Pointwise.ok sampleAt (rest.foldl (combine f) s)).congr fun i hi => ?_
    rw [sampleAt_foldl hi f hs hrest]
    rfl

/-- A quotient has in each interval the quotient of the samples there. -/
theorem pointwise_quotient (hn : 0 < n) (hs : s.Fits n) (ht : t.Fits n) :
    Pointwise n sampleAt (quotient s t) fun i =>
      Sample.quotient? (s.sampleAt i) (t.sampleAt i) := by
  have hunread : ∀ i, ((t.sampleAt i).value == 0) = true →
      Sample.quotient? (s.sampleAt i) (t.sampleAt i) = none := fun i hzero => by
    rw [Sample.quotient?, if_pos hzero]
  obtain ⟨hq, hnonzero⟩ | ⟨_, hq, hzero⟩ | ⟨i, hi, _, hq, hzero, _⟩ := quotient_cases hs ht
  · rw [hq]
    refine (Pointwise.ok sampleAt _).congr fun i hi => ?_
    rw [Sample.quotient?, if_neg (ne_true_of_eq_false (hnonzero i hi)), sampleAt_combine hs ht hi]
  · rw [hq]
    exact Pointwise.error sampleAt _ hn (hunread 0 (hzero 0))
  · rw [hq]
    exact Pointwise.error sampleAt _ hi (hunread i hzero)

theorem pointwise_divideBy (hn : 0 < n) :
    ∀ {signals : List Signal} {s : Signal}, s.Fits n → (∀ t ∈ signals, t.Fits n) →
      Pointwise n sampleAt (divideBy s signals) fun i =>
        Sample.divideBy? (s.sampleAt i) (samplesAt signals i)
  | [], s, _, _ => Pointwise.ok sampleAt s
  | t :: rest, s, hs, h => by
    obtain ⟨ht, hrest⟩ := List.forall_mem_cons.1 h
    refine (pointwise_quotient hn hs ht).bind fun q hq => ?_
    rw [quotient_eq_ok hq]
    exact pointwise_divideBy hn (hs.combine ht _) hrest

theorem pointwise_divide (hn : 0 < n) {signals : List Signal} (h : ∀ s ∈ signals, s.Fits n) :
    Pointwise n sampleAt (requireOperands "div" (divide? signals)) fun i =>
      Sample.divide? (samplesAt signals i) := by
  cases signals with
  | nil => exact Pointwise.error sampleAt _ hn rfl
  | cons s rest =>
    obtain ⟨hs, hrest⟩ := List.forall_mem_cons.1 h
    exact pointwise_divideBy hn hs hrest

end Signal

/-! ### Formulas -/

/-- The sample of a series of the workspace in an interval. -/
def Workspace.sampleAt? (w : Workspace) (i : Nat) (name : String) : Option Sample :=
  (w.series name).toOption.map fun s => s.sampleAt i

theorem Workspace.pointwise_series (w : Workspace) {n : Nat} (hn : 0 < n) (name : String) :
    Pointwise n Signal.sampleAt (w.series name) fun i => w.sampleAt? i name := by
  unfold Workspace.sampleAt?
  cases w.series name with
  | error e => exact Pointwise.error Signal.sampleAt e hn rfl
  | ok s => exact Pointwise.ok Signal.sampleAt s

mutual

/-- Over series that fit the grid a formula has in each interval the sample that is read there. -/
theorem Formula.pointwise_eval {w : Workspace} (hw : w.Fits) (hn : 0 < w.grid.length) :
    ∀ f : Formula, Pointwise w.grid.length Signal.sampleAt (f.eval w) fun i =>
      f.reading (w.sampleAt? i)
  | .add ops => (Operand.pointwise_evalAll hw hn ops).bind fun _ hsignals =>
      Signal.pointwise_fold hn (· + ·) "add" (Operand.fits_evalAll hw hsignals)
  | .sub a b => by
    refine (Operand.pointwise_eval hw hn a).bind fun x hx => ?_
    refine (Operand.pointwise_eval hw hn b).bind fun y hy => ?_
    refine (Pointwise.ok Signal.sampleAt _).congr fun i hi => ?_
    rw [Signal.sampleAt_combine (Operand.fits_eval hw hx) (Operand.fits_eval hw hy) hi]
  | .mul ops => (Operand.pointwise_evalAll hw hn ops).bind fun _ hsignals =>
      Signal.pointwise_fold hn (· * ·) "mul" (Operand.fits_evalAll hw hsignals)
  | .div ops => (Operand.pointwise_evalAll hw hn ops).bind fun _ hsignals =>
      Signal.pointwise_divide hn (Operand.fits_evalAll hw hsignals)
  | .pos op => by
    refine (Operand.pointwise_eval hw hn op).bind fun s hs => ?_
    refine (Pointwise.ok Signal.sampleAt _).congr fun i hi => ?_
    rw [Signal.abs, Signal.sampleAt_map (Operand.fits_eval hw hs) hi]
  | .operand op => Operand.pointwise_eval hw hn op

theorem Operand.pointwise_eval {w : Workspace} (hw : w.Fits) (hn : 0 < w.grid.length) :
    ∀ op : Operand, Pointwise w.grid.length Signal.sampleAt (op.eval w) fun i =>
      op.reading (w.sampleAt? i)
  | .meter m => by
    refine (w.pointwise_series hn m.meter.text).bind fun s hs => ?_
    refine (Pointwise.ok Signal.sampleAt _).congr fun i hi => ?_
    rw [Signal.scale_eq_map, Signal.sampleAt_map (hw.series hs) hi]
  | .constant c => Pointwise.ok Signal.sampleAt (Signal.constant c.value)
  | .variable v => w.pointwise_series hn v.text
  | .nested f => Formula.pointwise_eval hw hn f

theorem Operand.pointwise_evalAll {w : Workspace} (hw : w.Fits) (hn : 0 < w.grid.length) :
    ∀ ops : List Operand, Pointwise w.grid.length Signal.samplesAt (Operand.evalAll w ops)
      fun i => Operand.readings (w.sampleAt? i) ops
  | [] => Pointwise.ok Signal.samplesAt []
  | op :: rest => (Operand.pointwise_eval hw hn op).bind fun s _ =>
      (Operand.pointwise_evalAll hw hn rest).bind fun signals _ =>
        Pointwise.ok Signal.samplesAt (s :: signals)

end

/-! ### Names -/

section Names

variable {input input' : String → Option Sample}

mutual

/-- A formula is read with the samples of the series that it refers to. -/
theorem Formula.reading_congr : ∀ (f : Formula),
    (∀ r ∈ f.allReferences, input r.name = input' r.name) → f.reading input = f.reading input'
  | .add ops, h => by
    rw [Formula.reading, Formula.reading, Operand.readings_congr ops h]
  | .sub a b, h => by
    obtain ⟨ha, hb⟩ := List.forall_mem_append.1 h
    rw [Formula.reading, Formula.reading, Operand.reading_congr a ha, Operand.reading_congr b hb]
  | .mul ops, h => by
    rw [Formula.reading, Formula.reading, Operand.readings_congr ops h]
  | .div ops, h => by
    rw [Formula.reading, Formula.reading, Operand.readings_congr ops h]
  | .pos op, h => by
    rw [Formula.reading, Formula.reading, Operand.reading_congr op h]
  | .operand op, h => Operand.reading_congr op h

theorem Operand.reading_congr : ∀ (op : Operand),
    (∀ r ∈ op.allReferences, input r.name = input' r.name) → op.reading input = op.reading input'
  | .meter m, h => by
    have hm : input m.meter.text = input' m.meter.text := h _ (List.mem_singleton.2 rfl)
    rw [Operand.reading, Operand.reading, hm]
  | .constant _, _ => rfl
  | .variable _, h => h _ (List.mem_singleton.2 rfl)
  | .nested f, h => Formula.reading_congr f h

theorem Operand.readings_congr : ∀ (ops : List Operand),
    (∀ r ∈ Operand.listReferences ops, input r.name = input' r.name) →
      Operand.readings input ops = Operand.readings input' ops
  | [], _ => rfl
  | op :: rest, h => by
    obtain ⟨hop, hrest⟩ := List.forall_mem_append.1 h
    rw [Operand.readings, Operand.readings, Operand.reading_congr op hop,
      Operand.readings_congr rest hrest]

end

mutual

/-- Where a formula can be read, so can every series that it refers to. -/
theorem Formula.exists_input_of_reading : ∀ (f : Formula) {x : Sample},
    f.reading input = some x → ∀ r ∈ f.allReferences, ∃ y, input r.name = some y
  | .add ops, _, h => by
    obtain ⟨_, hops, _⟩ := Option.bind_eq_some_iff.1 h
    exact Operand.exists_input_of_readings ops hops
  | .sub a b, _, h => by
    obtain ⟨_, ha, h⟩ := Option.bind_eq_some_iff.1 h
    obtain ⟨_, hb, _⟩ := Option.bind_eq_some_iff.1 h
    exact List.forall_mem_append.2
      ⟨Operand.exists_input_of_reading a ha, Operand.exists_input_of_reading b hb⟩
  | .mul ops, _, h => by
    obtain ⟨_, hops, _⟩ := Option.bind_eq_some_iff.1 h
    exact Operand.exists_input_of_readings ops hops
  | .div ops, _, h => by
    obtain ⟨_, hops, _⟩ := Option.bind_eq_some_iff.1 h
    exact Operand.exists_input_of_readings ops hops
  | .pos op, _, h => by
    obtain ⟨_, hop, _⟩ := Option.bind_eq_some_iff.1 h
    exact Operand.exists_input_of_reading op hop
  | .operand op, _, h => Operand.exists_input_of_reading op h

theorem Operand.exists_input_of_reading : ∀ (op : Operand) {x : Sample},
    op.reading input = some x → ∀ r ∈ op.allReferences, ∃ y, input r.name = some y
  | .meter m, _, h => by
    obtain ⟨y, hy, _⟩ := Option.bind_eq_some_iff.1 h
    exact List.forall_mem_singleton.2 ⟨y, hy⟩
  | .constant _, _, _ => List.forall_mem_nil _
  | .variable _, x, h => List.forall_mem_singleton.2 ⟨x, h⟩
  | .nested f, _, h => Formula.exists_input_of_reading f h

theorem Operand.exists_input_of_readings : ∀ (ops : List Operand) {xs : List Sample},
    Operand.readings input ops = some xs →
      ∀ r ∈ Operand.listReferences ops, ∃ y, input r.name = some y
  | [], _, _ => List.forall_mem_nil _
  | op :: rest, _, h => by
    obtain ⟨_, hop, h⟩ := Option.bind_eq_some_iff.1 h
    obtain ⟨_, hrest, _⟩ := Option.bind_eq_some_iff.1 h
    exact List.forall_mem_append.2
      ⟨Operand.exists_input_of_reading op hop, Operand.exists_input_of_readings rest hrest⟩

end

end Names

end EnergyFormula
