import EnergyFormula.Evaluation.Output
import EnergyFormula.Proofs.Evaluation.Selection
import EnergyFormula.Proofs.Expression.Part

/-!
# Expressions interval by interval

An expression is read at one interval with a sample for each of its series
(`Expression.reference`).  A conditional branch compares its two sides there and takes one branch,
the reductions go through all intervals, and every other function makes one number of the numbers of
its parameters.  A successful evaluation has in every interval the sample that is read there
(`Expression.shows_eval`), where a rounding is as good as the number that is rounded.
-/

namespace EnergyFormula

/-! ### Readings -/

/-- The number that a function makes of the numbers of its parameters.  Conditional branches and
reductions are no functions of numbers in one interval. -/
def DomainFunction.number? : DomainFunction → List Float → Option Float
  | groupedSum, xs => Number.fold? (· + ·) xs
  | crossSeriesMax, xs => Number.fold? Signal.greater xs
  | crossSeriesMin, xs => Number.fold? Signal.lesser xs
  | portionAboveThreshold, [x, t] => some (Signal.positivePart (x - t))
  | portionBelowThreshold, [x, t] => some (Signal.positivePart (t - x))
  | greaterThan, [x, y] => some (Signal.indicator (y < x))
  | round, [x, places] =>
    ((Number.natural? places).filter (· ≤ maxRoundPlaces)).map (Number.roundHalfAway x)
  | meteringTypeConversion, [x] => some x
  | meteringTypeConversion, [x, k] => some (x * k)
  | extension "add", xs => Number.fold? (· + ·) xs
  | extension "mul", xs => Number.fold? (· * ·) xs
  | extension "div", xs => Number.divide? xs
  | extension "sub", [x, y] => some (x - y)
  | extension "pos", [x] => some x.abs
  | extension "operand", [x] => some x
  | _, _ => none

/-- The samples that a function weighs for the quality of its result: those of all parameters. -/
def DomainFunction.allWeighed (_ : DomainFunction) (xs : List Sample) : List Sample :=
  xs

/-- The same without the decimal places of a rounding. -/
def DomainFunction.weighed : DomainFunction → List Sample → List Sample
  | round, x :: _ => [x]
  | _, xs => xs

/-- What a function makes of the samples of its parameters, as good as the worst of those that it
weighs. -/
def DomainFunction.joined? (weigh : DomainFunction → List Sample → List Sample)
    (function : DomainFunction) (xs : List Sample) : Option Sample :=
  (function.number? (xs.map Sample.value)).map fun v =>
    ⟨v, .worstOf ((weigh function xs).map Sample.quality)⟩

namespace Sample

/-- The sample of the branch that the comparison of two samples chooses, no better than these. -/
def chosen? (comparison : Comparison) (x y : Sample) (thenBranch otherwise : Option Sample) :
    Option Sample :=
  (if comparison.holds x.value y.value then thenBranch else otherwise).map fun z =>
    ⟨z.value, .worstOf [z.quality, x.quality, y.quality]⟩

end Sample

section Reference

variable (weigh : DomainFunction → List Sample → List Sample) (n : Nat)
  (input : Nat → String → Option Sample)

mutual

/-- The expression read at one of `n` intervals, with a sample for each name in each of them. -/
def Expression.reference : Expression → Nat → Option Sample
  | .apply .conditionalBranch [a, .literal operator, b, thenBranch, otherwise], i =>
    (Comparison.parse? operator).bind fun comparison =>
      (a.reference i).bind fun x => (b.reference i).bind fun y =>
        Sample.chosen? comparison x y (thenBranch.reference i) (otherwise.reference i)
  | .apply .intervalMax [p], _ =>
    (((List.range n).map fun j => p.reference j).mapM id).bind (Sample.reduced? Signal.greater)
  | .apply .intervalMin [p], _ =>
    (((List.range n).map fun j => p.reference j).mapM id).bind (Sample.reduced? Signal.lesser)
  | .apply function ps, i => (Parameter.references ps i).bind (function.joined? weigh)

/-- A parameter read at an interval. -/
def Parameter.reference : Parameter → Nat → Option Sample
  | .constant v, _ => some (.validated v)
  | .series name factor, i => (input i name).bind fun x => some (x.map (· * factor))
  | .literal _, _ => none
  | .expression e, i => e.reference i

/-- Several parameters read at an interval, if all of them can be. -/
def Parameter.references : List Parameter → Nat → Option (List Sample)
  | [], _ => some []
  | p :: rest, i =>
    (p.reference i).bind fun x => (Parameter.references rest i).bind fun xs => some (x :: xs)

end

end Reference

/-! ### Functions of samples -/

namespace Sample

/-- A sample with a known value and quality is what these two make. -/
theorem map_mk_eq_some {x? : Option Sample} {v? : Option Float} {q : IntervalQuality} {x : Sample}
    (h : x? = some x) (hvalue : x?.map Sample.value = v?) (hquality : x.quality = q) :
    v?.map (fun v => (⟨v, q⟩ : Sample)) = some x := by
  rw [← hvalue, h, ← hquality]
  rfl

theorem worstOf_pair (a b : IntervalQuality) : IntervalQuality.worstOf [a, b] = a.worst b := by
  cases a <;> cases b <;> rfl

end Sample

namespace Signal

variable {n i : Nat} {s t : Signal} {signals : List Signal}

/-- The samples of two signals, joined value by value. -/
theorem sampleAt_combine_eq (hs : s.Fits n) (ht : t.Fits n) (hi : i < n)
    (f : Float → Float → Float) :
    (combine f s t).sampleAt i =
      ⟨f (s.sampleAt i).value (t.sampleAt i).value,
        .worstOf [(s.sampleAt i).quality, (t.sampleAt i).quality]⟩ := by
  rw [sampleAt_combine hs ht hi, Sample.worstOf_pair]
  rfl

/-- A fold has in each interval the fold of the values there, and the worst quality. -/
theorem sampleAt_fold? (hfits : ∀ t ∈ signals, t.Fits n) (hi : i < n)
    {f : Float → Float → Float} (h : fold? f signals = some s) :
    (Number.fold? f ((samplesAt signals i).map Sample.value)).map
        (fun v => (⟨v, .worstOf ((samplesAt signals i).map Sample.quality)⟩ : Sample)) =
      some (s.sampleAt i) := by
  have hfold : Sample.fold? f (samplesAt signals i) = some (s.sampleAt i) := by
    cases signals with
    | nil => cases h
    | cons t rest =>
      cases h
      obtain ⟨ht, hrest⟩ := List.forall_mem_cons.1 hfits
      rw [sampleAt_foldl hi f ht hrest]
      rfl
  exact Sample.map_mk_eq_some hfold (Sample.map_value_fold? f _) (Sample.quality_of_fold? hfold)

/-- A row of quotients has in each interval the quotients of the values there. -/
theorem sampleAt_divide? (hfits : ∀ t ∈ signals, t.Fits n) (hi : i < n)
    (h : divide? signals = some (.ok s)) :
    (Number.divide? ((samplesAt signals i).map Sample.value)).map
        (fun v => (⟨v, .worstOf ((samplesAt signals i).map Sample.quality)⟩ : Sample)) =
      some (s.sampleAt i) := by
  have hdivide : Sample.divide? (samplesAt signals i) = some (s.sampleAt i) := by
    cases signals with
    | nil => cases h
    | cons t rest =>
      obtain ⟨ht, hrest⟩ := List.forall_mem_cons.1 hfits
      have hdivided := Option.some.inj h
      exact (pointwise_divideBy (Nat.zero_lt_of_lt hi) ht hrest).sound s hdivided i hi
  exact Sample.map_mk_eq_some hdivide (Sample.map_value_divide? _)
    (Sample.quality_of_divide? hdivide)

end Signal

/-- The signal fits a grid of `n` intervals and has in each of them the sample that is read
there. -/
def Signal.Shows (n : Nat) (s : Signal) (reading : Nat → Option Sample) : Prop :=
  s.Fits n ∧ ∀ i < n, reading i = some (s.sampleAt i)

namespace DomainFunction

variable {n : Nat} {signals : List Signal} {s : Signal}

/-- What all functions of several signals that combine them in turn have in each interval. -/
theorem shows_fold {f : Float → Float → Float} {e : EvalError} (hfits : ∀ t ∈ signals, t.Fits n)
    (h : (match Signal.fold? f signals with
      | some signal => Except.ok signal
      | none => .error e) = .ok s) :
    s.Shows n fun i =>
      (Number.fold? f ((Signal.samplesAt signals i).map Sample.value)).map fun v =>
        ⟨v, .worstOf ((Signal.samplesAt signals i).map Sample.quality)⟩ := by
  cases hfold : Signal.fold? f signals with
  | none =>
    rw [hfold] at h
    cases h
  | some t =>
    rw [hfold] at h
    cases h
    exact ⟨Signal.fits_of_fold? hfits hfold, fun i hi => Signal.sampleAt_fold? hfits hi hfold⟩

theorem shows_combine {a b : Signal} (f : Float → Float → Float) (hfits : ∀ t ∈ [a, b], t.Fits n) :
    (Signal.combine f a b).Shows n fun i =>
      some ⟨f (a.sampleAt i).value (b.sampleAt i).value,
        .worstOf [(a.sampleAt i).quality, (b.sampleAt i).quality]⟩ := by
  have ha := hfits a List.mem_cons_self
  have hb := hfits b (List.mem_cons_of_mem a List.mem_cons_self)
  exact ⟨ha.combine hb f, fun i hi => congrArg some (Signal.sampleAt_combine_eq ha hb hi f).symm⟩

theorem shows_map {a : Signal} (f : Float → Float) (ha : a.Fits n) :
    (a.map f).Shows n fun i =>
      some ⟨f (a.sampleAt i).value, .worstOf [(a.sampleAt i).quality]⟩ := by
  refine ⟨ha.map f, fun i hi => ?_⟩
  have hquality : IntervalQuality.worstOf [(a.sampleAt i).quality] = (a.sampleAt i).quality :=
    IntervalQuality.worst_validated _
  rw [Signal.sampleAt_map ha hi]
  exact congrArg (fun q => some (⟨f (a.sampleAt i).value, q⟩ : Sample)) hquality

theorem shows_self {a : Signal} (ha : a.Fits n) :
    a.Shows n fun i => some ⟨(a.sampleAt i).value, .worstOf [(a.sampleAt i).quality]⟩ := by
  have hmap := shows_map (fun x => x) ha
  rw [Signal.map_id] at hmap
  exact hmap

/-- The decimal places of a signal are those of its samples. -/
theorem decimalPlaces?_sampleAt {places : Signal} {k : Nat} (h : decimalPlaces? places = some k)
    (i : Nat) :
    (Number.natural? (places.sampleAt i).value).filter (· ≤ maxRoundPlaces) = some k := by
  cases places with
  | scalar x => exact h
  | series samples => cases h

/-- The decimal places are the same in all intervals, and their quality does not count. -/
theorem shows_round {a places : Signal} {k : Nat} (hplaces : decimalPlaces? places = some k)
    (ha : a.Fits n) :
    (a.map (Number.roundHalfAway · k)).Shows n fun i =>
      round.joined? weighed (Signal.samplesAt [a, places] i) := by
  obtain ⟨hround, hsample⟩ := shows_map (Number.roundHalfAway · k) ha
  refine ⟨hround, fun i hi => ?_⟩
  have hk := decimalPlaces?_sampleAt hplaces i
  refine Eq.trans ?_ (hsample i hi)
  simp [joined?, number?, weighed, Signal.samplesAt, hk]

theorem shows_divide {e : EvalError} (hfits : ∀ t ∈ signals, t.Fits n)
    (h : (Signal.divide? signals).getD (.error e) = .ok s) :
    s.Shows n fun i =>
      (Number.divide? ((Signal.samplesAt signals i).map Sample.value)).map fun v =>
        ⟨v, .worstOf ((Signal.samplesAt signals i).map Sample.quality)⟩ := by
  cases hdivide : Signal.divide? signals with
  | none =>
    rw [hdivide] at h
    cases h
  | some outcome =>
    rw [hdivide, Option.getD_some] at h
    rw [h] at hdivide
    refine ⟨?_, fun i hi => Signal.sampleAt_divide? hfits hi hdivide⟩
    cases signals with
    | nil => cases hdivide
    | cons t rest =>
      obtain ⟨ht, hrest⟩ := List.forall_mem_cons.1 hfits
      exact Signal.fits_of_divideBy ht hrest (Option.some.inj hdivide)

/-- A function has in each interval what it makes of the samples of its parameters. -/
theorem shows_applyTo {function : DomainFunction} (hreduction : function.isReduction = false)
    (hfits : ∀ t ∈ signals, t.Fits n) (h : function.applyTo signals = .ok s) :
    s.Shows n fun i => function.joined? weighed (Signal.samplesAt signals i) := by
  unfold applyTo at h
  dsimp only at h
  split at h
  case h_1 => exact shows_fold hfits h
  case h_2 => exact shows_fold hfits h
  case h_3 => exact shows_fold hfits h
  case h_4 =>
    cases h
    exact shows_combine _ hfits
  case h_5 =>
    cases h
    exact shows_combine _ hfits
  case h_6 =>
    cases h
    exact shows_combine _ hfits
  case h_7 a places =>
    split at h
    · rename_i k hplaces
      cases h
      exact shows_round hplaces (hfits a List.mem_cons_self)
    · cases h
  case h_8 =>
    cases h
    exact shows_self (hfits s List.mem_cons_self)
  case h_9 =>
    cases h
    exact shows_combine _ hfits
  case h_10 => cases hreduction
  case h_11 => cases hreduction
  case h_12 => exact shows_fold hfits h
  case h_13 => exact shows_fold hfits h
  case h_14 => exact shows_divide hfits h
  case h_15 =>
    cases h
    exact shows_combine _ hfits
  case h_16 a =>
    cases h
    exact shows_map _ (hfits a List.mem_cons_self)
  case h_17 =>
    cases h
    exact shows_self (hfits s List.mem_cons_self)
  case h_18 => cases h

end DomainFunction

/-! ### The evaluation of expressions -/

section Evaluation

variable {w : Workspace} {input : Nat → String → Option Sample}

/-- In every interval the names have the samples of the series in the workspace. -/
def Workspace.Gives (w : Workspace) (input : Nat → String → Option Sample) (names : List String) :
    Prop :=
  ∀ name ∈ names, ∀ i < w.grid.length, input i name = w.sampleAt? i name

/-- The signal of the expression, if it has one, is the one that is read. -/
def Expression.IsRead (w : Workspace) (input : Nat → String → Option Sample) (e : Expression) :
    Prop :=
  w.Gives input e.allNames → ∀ s, e.eval w = .ok s →
    s.Shows w.grid.length (e.reference DomainFunction.weighed w.grid.length input)

theorem Parameter.mem_listNames {name : String} {p : Parameter} (hname : name ∈ p.allNames) :
    ∀ {ps : List Parameter}, p ∈ ps → name ∈ listNames ps
  | first :: rest, hp => by
    rw [listNames, List.mem_append]
    rcases List.mem_cons.1 hp with rfl | h
    · exact .inl hname
    · exact .inr (mem_listNames hname h)

theorem Parameter.shows_eval (hw : w.Fits) {function : DomainFunction} {index : Nat}
    {p : Parameter} (hnested : ∀ e, p = .expression e → e.IsRead w input)
    (hinput : w.Gives input p.allNames) {s : Signal} (h : p.eval w function index = .ok s) :
    s.Shows w.grid.length (p.reference DomainFunction.weighed w.grid.length input) := by
  cases p with
  | constant v =>
    obtain ⟨_, rfl⟩ := Parameter.eval_constant_eq_ok_iff.1 h
    exact ⟨Signal.fits_scalar _, fun i _ => rfl⟩
  | series name factor =>
    obtain ⟨_, samples, hsamples, rfl⟩ := Parameter.eval_series_eq_ok_iff.1 h
    have hfits := hw.series hsamples
    refine ⟨hfits.scale _, fun i hi => ?_⟩
    have hsample : input i name = some ((Signal.series samples).sampleAt i) := by
      rw [hinput name (List.mem_singleton.2 rfl) i hi, Workspace.sampleAt?, hsamples]
      rfl
    rw [Parameter.reference, hsample, Signal.scale_eq_map, Signal.sampleAt_map hfits hi]
    rfl
  | literal v => cases h
  | expression e => exact hnested e rfl hinput s h

theorem Parameter.shows_evalAll (hw : w.Fits) {function : DomainFunction} :
    ∀ {ps : List Parameter} {index : Nat} {signals : List Signal},
      (∀ e, Parameter.expression e ∈ ps → e.IsRead w input) → w.Gives input (listNames ps) →
        evalAll w function index ps = .ok signals →
          (∀ t ∈ signals, t.Fits w.grid.length) ∧ ∀ i < w.grid.length,
            references DomainFunction.weighed w.grid.length input ps i =
              some (Signal.samplesAt signals i)
  | [], _, signals, _, _, h => by
    cases h
    exact ⟨List.forall_mem_nil _, fun i _ => rfl⟩
  | p :: rest, index, signals, hnested, hinput, h => by
    obtain ⟨s, hs, h⟩ := bind_eq_ok.1 h
    obtain ⟨others, hothers, h⟩ := bind_eq_ok.1 h
    cases h
    obtain ⟨hp, hrest⟩ := List.forall_mem_append.1 hinput
    have hfirst : ∀ e, p = .expression e → e.IsRead w input := by
      rintro e rfl
      exact hnested e List.mem_cons_self
    obtain ⟨hfits, hsample⟩ := Parameter.shows_eval hw hfirst hp hs
    obtain ⟨hfitsRest, hsamples⟩ :=
      shows_evalAll hw (fun e he => hnested e (List.mem_cons_of_mem p he)) hrest hothers
    refine ⟨List.forall_mem_cons.2 ⟨hfits, hfitsRest⟩, fun i hi => ?_⟩
    rw [references, hsample i hi, Option.bind_some, hsamples i hi]
    rfl

theorem DomainFunction.admits_of_check {function : DomainFunction} {given : Nat} {u : Unit}
    (h : function.check given = .ok u) : (function.parameterCount given).admits given = true := by
  have hadmits : ∀ b : Bool,
      (if b then .ok () else .error (function.wrongCount given)) = Except.ok u → b = true := by
    intro b hb
    cases b with
    | true => rfl
    | false => cases hb
  unfold DomainFunction.check at h
  split at h
  · split at h
    · cases h
    · exact hadmits _ h
  · exact hadmits _ h

theorem DomainFunction.eq_five_of_check {ps : List Parameter} {u : Unit}
    (h : conditionalBranch.check ps.length = .ok u) : ∃ a b c d e, ps = [a, b, c, d, e] := by
  have hlength : ps.length = 5 := of_decide_eq_true (admits_of_check h)
  obtain ⟨a, rest, rfl, hrest⟩ := List.length_eq_succ_iff.1 hlength
  obtain ⟨b, c, d, e, rfl⟩ := List.length_eq_four.1 hrest
  exact ⟨a, b, c, d, e, rfl⟩

/-- A conditional branch that has a signal is the selection by a comparison. -/
theorem Expression.eval_conditional_eq_ok {ps : List Parameter} {s : Signal}
    (h : (Expression.apply .conditionalBranch ps).eval w = .ok s) :
    ∃ a operator b thenBranch otherwise comparison x y,
      ps = [a, .literal operator, b, thenBranch, otherwise] ∧
        Comparison.parse? operator = some comparison ∧
          a.eval w .conditionalBranch 0 = .ok x ∧ b.eval w .conditionalBranch 2 = .ok y ∧
            Signal.select (x.compare comparison y) (thenBranch.eval w .conditionalBranch 3)
              (otherwise.eval w .conditionalBranch 4) w.grid.length = .ok s := by
  unfold Expression.eval at h
  split at h
  · rename_i a operator b thenBranch otherwise heq
    cases heq
    cases hcomparison : Comparison.parse? operator with
    | none =>
      rw [hcomparison] at h
      cases h
    | some comparison =>
      rw [hcomparison] at h
      obtain ⟨x, hx, h⟩ := bind_eq_ok.1 h
      obtain ⟨y, hy, h⟩ := bind_eq_ok.1 h
      exact ⟨a, operator, b, thenBranch, otherwise, comparison, x, y, rfl, hcomparison, hx, hy, h⟩
  · cases h
  · rename_i hliteral hother heq
    cases heq
    obtain ⟨_, hcheck, _⟩ := bind_eq_ok.1 h
    -- all rows of five parameters have been treated
    obtain ⟨a, b, c, d, e, rfl⟩ := DomainFunction.eq_five_of_check hcheck
    exact absurd rfl (hother a b c d e rfl)

theorem Expression.reference_apply {weigh : DomainFunction → List Sample → List Sample} {n : Nat}
    {function : DomainFunction} (hbranch : function ≠ .conditionalBranch)
    (hreduction : function.isReduction = false) (ps : List Parameter) (i : Nat) :
    (Expression.apply function ps).reference weigh n input i =
      (Parameter.references weigh n input ps i).bind (function.joined? weigh) := by
  cases function with
  | conditionalBranch => exact absurd rfl hbranch
  | intervalMax => cases hreduction
  | intervalMin => cases hreduction
  | _ => rfl

theorem Expression.isRead_conditional (hw : w.Fits) {ps : List Parameter}
    (hnested : ∀ e, Parameter.expression e ∈ ps → e.IsRead w input) :
    (Expression.apply .conditionalBranch ps).IsRead w input := by
  intro hinput s h
  obtain ⟨a, operator, b, thenBranch, otherwise, comparison, x, y, rfl, hcomparison, hx, hy,
    hselect⟩ := eval_conditional_eq_ok h
  have hread : ∀ p ∈ [a, .literal operator, b, thenBranch, otherwise], ∀ index t,
      p.eval w .conditionalBranch index = .ok t →
        t.Shows w.grid.length (p.reference DomainFunction.weighed w.grid.length input) := by
    intro p hp index t ht
    refine Parameter.shows_eval hw ?_ ?_ ht
    · rintro e rfl
      exact hnested e hp
    · intro name hname
      exact hinput name (Parameter.mem_listNames hname hp)
  obtain ⟨hxfits, hxsample⟩ := hread a (by simp) 0 x hx
  obtain ⟨hyfits, hysample⟩ := hread b (by simp) 2 y hy
  have hcondition : (x.compare comparison y).Fits w.grid.length := hxfits.combine hyfits _
  obtain ⟨hfits, hchosen⟩ := Signal.select_eq_ok hcondition hselect
  refine ⟨hfits, fun i hi => ?_⟩
  obtain ⟨t, ht, hsample⟩ := hchosen i hi
  rw [Expression.reference, hcomparison, Option.bind_some, hxsample i hi, Option.bind_some,
    hysample i hi, Option.bind_some, Sample.chosen?]
  rw [Signal.picks_compare hxfits hyfits hi] at ht
  -- the comparison picks the same branch on both sides
  have hbranch : (if comparison.holds (x.sampleAt i).value (y.sampleAt i).value then
      thenBranch.reference DomainFunction.weighed w.grid.length input i
      else otherwise.reference DomainFunction.weighed w.grid.length input i) =
        some (t.sampleAt i) := by
    split at ht
    · obtain ⟨_, hthen⟩ := hread thenBranch (by simp) 3 t ht
      rw [if_pos ‹_›]
      exact hthen i hi
    · obtain ⟨_, helse⟩ := hread otherwise (by simp) 4 t ht
      rw [if_neg ‹_›]
      exact helse i hi
  rw [hbranch, hsample, Signal.compare, Signal.sampleAt_combine_eq hxfits hyfits hi]
  rfl

/-- A function of one parameter has a signal of it. -/
theorem Expression.exists_of_eval_one {function : DomainFunction}
    (hbranch : function ≠ .conditionalBranch) (hcount : ∀ k, function.parameterCount k = .one)
    {ps : List Parameter} {s : Signal} (h : (Expression.apply function ps).eval w = .ok s) :
    ∃ p t, ps = [p] ∧ p.eval w function 0 = .ok t ∧ function.applyTo [t] = .ok s := by
  obtain ⟨hcheck, signals, hsignals, happly⟩ := (eval_apply_eq_ok_iff hbranch).1 h
  have hadmits := DomainFunction.admits_of_check hcheck
  rw [hcount] at hadmits
  obtain ⟨p, rfl⟩ := List.length_eq_one_iff.1 (of_decide_eq_true hadmits)
  obtain ⟨t, ht, hsignals⟩ := bind_eq_ok.1 hsignals
  cases hsignals
  exact ⟨p, t, rfl, ht, happly⟩

theorem Expression.isRead_reduction (hw : w.Fits) {function : DomainFunction}
    {pick : Float → Float → Float} (hpick : ∀ v, pick v v = v)
    (happly : ∀ s, function.applyTo [s] = .ok (s.reduce pick))
    (hreference : ∀ p i, (Expression.apply function [p]).reference DomainFunction.weighed
      w.grid.length input i =
        (((List.range w.grid.length).map fun j =>
          p.reference DomainFunction.weighed w.grid.length input j).mapM id).bind
            (Sample.reduced? pick))
    (hcount : ∀ k, function.parameterCount k = .one) (hbranch : function ≠ .conditionalBranch)
    {ps : List Parameter} (hnested : ∀ e, Parameter.expression e ∈ ps → e.IsRead w input) :
    (Expression.apply function ps).IsRead w input := by
  intro hinput s h
  obtain ⟨p, t, rfl, ht, h⟩ := Expression.exists_of_eval_one hbranch hcount h
  rw [happly] at h
  cases h
  have hfirst : ∀ e, p = .expression e → e.IsRead w input := by
    rintro e rfl
    exact hnested e List.mem_cons_self
  have hnames : w.Gives input p.allNames := by
    intro name hname
    exact hinput name (Parameter.mem_listNames hname List.mem_cons_self)
  obtain ⟨hfits, hsample⟩ := Parameter.shows_eval hw hfirst hnames ht
  refine ⟨by cases t <;> exact Signal.fits_scalar _, fun i hi => ?_⟩
  have hall : ((List.range w.grid.length).map fun j =>
      p.reference DomainFunction.weighed w.grid.length input j).mapM id =
        some (t.samplesIn w.grid.length) := by
    rw [mapM_id_eq_some_iff, Signal.samplesIn, List.map_map]
    exact List.map_congr_left fun j hj => hsample j (List.mem_range.1 hj)
  rw [hreference, hall, Option.bind_some]
  exact Signal.reduced?_samplesIn hpick hfits (Nat.zero_lt_of_lt hi) i

/-- An expression that has a signal has in each interval the sample that is read there. -/
theorem Expression.shows_eval (hw : w.Fits) (e : Expression) : e.IsRead w input := by
  induction e using Expression.induction with
  | step function ps hnested =>
    by_cases hbranch : function = .conditionalBranch
    · subst hbranch
      exact isRead_conditional hw hnested
    · cases hreduction : function.isReduction with
      | true =>
        cases function with
        | intervalMax =>
          exact isRead_reduction hw Signal.greater_self (fun _ => rfl) (fun _ _ => rfl)
            (fun _ => rfl) hbranch hnested
        | intervalMin =>
          exact isRead_reduction hw Signal.lesser_self (fun _ => rfl) (fun _ _ => rfl)
            (fun _ => rfl) hbranch hnested
        | _ => cases hreduction
      | false =>
        intro hinput s h
        obtain ⟨_, signals, hsignals, h⟩ := (Expression.eval_apply_eq_ok_iff hbranch).1 h
        obtain ⟨hfits, hsamples⟩ := Parameter.shows_evalAll hw hnested hinput hsignals
        obtain ⟨hresult, hsample⟩ := DomainFunction.shows_applyTo hreduction hfits h
        refine ⟨hresult, fun i hi => ?_⟩
        rw [reference_apply hbranch hreduction, hsamples i hi]
        exact hsample i hi

end Evaluation

end EnergyFormula
