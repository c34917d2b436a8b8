import EnergyFormula.Proofs.Evaluation.Instants
import EnergyFormula.Proofs.Formula.Part

/-!
# Formulas as arithmetic on numbers

A formula says what to do with one number for each of its series: sums, products and quotients from
left to right, as long as no divisor is zero (`Formula.value?`).  There is no number exactly if some
divisor is zero (`Formula.value?_eq_none_iff`), provided that no operator lacks operands.

A formula that is read with samples has that number (`Formula.value_reading`), and the worst quality
of the series that it refers to (`Formula.quality_reading`).
-/

namespace EnergyFormula

/-! ### Numbers -/

namespace Number

/-- The first number combined with each of the others in turn; nothing for no number. -/
def fold? (f : Float → Float → Float) : List Float → Option Float
  | [] => none
  | x :: rest => some (rest.foldl f x)

/-- The number divided by each of several divisors in turn, as long as none of them is zero. -/
def divideBy? (x : Float) : List Float → Option Float
  | [] => some x
  | y :: rest => if y == 0 then none else divideBy? (x / y) rest

/-- The first number divided by the others, from left to right. -/
def divide? : List Float → Option Float
  | [] => none
  | x :: rest => divideBy? x rest

theorem fold?_isSome {f : Float → Float → Float} {xs : List Float} (h : xs ≠ []) :
    (fold? f xs).isSome = true := by
  cases xs with
  | nil => exact absurd rfl h
  | cons x rest => rfl

/-- A row of quotients breaks off exactly at a zero divisor. -/
theorem divideBy?_eq_none_iff {x : Float} {ys : List Float} :
    divideBy? x ys = none ↔ ∃ y ∈ ys, (y == 0) = true := by
  induction ys generalizing x with
  | nil => simp [divideBy?]
  | cons y rest ih =>
    rw [divideBy?, List.exists_mem_cons_iff]
    by_cases hy : (y == 0) = true
    · simp [hy]
    · rw [if_neg hy, ih]
      simp [hy]

end Number

mutual

/-- The number that a formula comes to with a number for each name, unless a divisor is zero. -/
def Formula.value? (x : String → Float) : Formula → Option Float
  | .add ops => (Operand.values? x ops).bind (Number.fold? (· + ·))
  | .sub a b => (a.value? x).bind fun u => (b.value? x).bind fun v => some (u - v)
  | .mul ops => (Operand.values? x ops).bind (Number.fold? (· * ·))
  | .div ops => (Operand.values? x ops).bind Number.divide?
  | .pos op => (op.value? x).bind fun u => some u.abs
  | .operand op => op.value? x

/-- The number that an operand comes to with a number for each name. -/
def Operand.value? (x : String → Float) : Operand → Option Float
  | .meter m => some (x m.meter.text * m.effectiveFactor)
  | .constant c => some c.value
  | .variable v => some (x v.text)
  | .nested f => f.value? x

/-- The numbers that several operands come to, if all of them do. -/
def Operand.values? (x : String → Float) : List Operand → Option (List Float)
  | [] => some []
  | op :: rest =>
    (op.value? x).bind fun u => (Operand.values? x rest).bind fun us => some (u :: us)

end

/-! ### Zero divisors -/

section ZeroDivisors

variable {x : String → Float}

/-- Somewhere in the formula a divisor comes to zero. -/
def Formula.DividesByZero (x : String → Float) (f : Formula) : Prop :=
  ∃ dividend divisors, Formula.Part (.div (dividend :: divisors)) f ∧
    ∃ op ∈ divisors, ∃ v, op.value? x = some v ∧ (v == 0) = true

theorem Formula.DividesByZero.nested {f g : Formula} (h : g.DividesByZero x)
    (hg : Operand.nested g ∈ f.operands) : f.DividesByZero x := by
  obtain ⟨dividend, divisors, hpart, hzero⟩ := h
  exact ⟨dividend, divisors, .nested hpart hg, hzero⟩

namespace Operand

theorem values?_eq_none_iff {ops : List Operand} :
    values? x ops = none ↔ ∃ op ∈ ops, op.value? x = none := by
  induction ops with
  | nil => simp [values?]
  | cons op rest ih =>
    rw [values?, List.exists_mem_cons_iff, ← ih]
    cases op.value? x <;> cases values? x rest <;> simp

theorem forall₂_of_values? {ops : List Operand} {us : List Float} (h : values? x ops = some us) :
    List.Forall₂ (fun op u => op.value? x = some u) ops us := by
  induction ops generalizing us with
  | nil =>
    cases h
    exact .nil
  | cons op rest ih =>
    obtain ⟨u, hu, h⟩ := Option.bind_eq_some_iff.1 h
    obtain ⟨others, hothers, h⟩ := Option.bind_eq_some_iff.1 h
    cases h
    exact .cons hu (ih hothers)

theorem ne_nil_of_values? {ops : List Operand} {us : List Float} (hops : ops ≠ [])
    (h : values? x ops = some us) : us ≠ [] := by
  have hlength := (forall₂_of_values? h).length_eq
  intro hus
  rw [hus, List.length_nil] at hlength
  exact hops (List.eq_nil_of_length_eq_zero hlength)

/-- Only a nested formula can come to nothing. -/
theorem exists_nested_of_value? :
    ∀ {op : Operand}, op.value? x = none → ∃ g, op = .nested g ∧ g.value? x = none
  | .nested g, h => ⟨g, rfl, h⟩
  | .meter _, h => by cases h
  | .constant _, h => by cases h
  | .variable _, h => by cases h

/-- A fold over operands comes to nothing if one of them does. -/
theorem bind_fold?_eq_none_iff {f : Float → Float → Float} {ops : List Operand} (hops : ops ≠ []) :
    (values? x ops).bind (Number.fold? f) = none ↔ ∃ op ∈ ops, op.value? x = none := by
  rw [← values?_eq_none_iff]
  cases hus : values? x ops with
  | none => simp
  | some us =>
    have hfold := Number.fold?_isSome (f := f) (ne_nil_of_values? hops hus)
    obtain ⟨u, hu⟩ := Option.isSome_iff_exists.1 hfold
    simp [hu]

end Operand

/-- A formula comes to nothing if an operand does, or if it is a quotient with a zero divisor. -/
theorem Formula.value?_eq_none_iff_operands {f : Formula} (hf : f.operands ≠ []) :
    f.value? x = none ↔ (∃ op ∈ f.operands, op.value? x = none) ∨
      ∃ dividend divisors, f = .div (dividend :: divisors) ∧
        ∃ op ∈ divisors, ∃ v, op.value? x = some v ∧ (v == 0) = true := by
  cases f with
  | add ops => simpa [Formula.value?, Formula.operands] using Operand.bind_fold?_eq_none_iff hf
  | mul ops => simpa [Formula.value?, Formula.operands] using Operand.bind_fold?_eq_none_iff hf
  | sub a b =>
    rw [Formula.value?, Formula.operands]
    cases ha : a.value? x <;> cases hb : b.value? x <;> simp [ha, hb]
  | pos op =>
    rw [Formula.value?, Formula.operands]
    cases hop : op.value? x <;> simp [hop]
  | operand op => simp [Formula.value?, Formula.operands]
  | div ops =>
    rw [Formula.value?, Formula.operands]
    cases hus : Operand.values? x ops with
    | none =>
      have hnone := Operand.values?_eq_none_iff.1 hus
      simp [hnone]
    | some us =>
      -- every operand comes to a number, so a divisor is to blame
      have hall := Operand.forall₂_of_values? hus
      have hsome : ¬ ∃ op ∈ ops, op.value? x = none := by
        rw [← Operand.values?_eq_none_iff, hus]
        exact Option.some_ne_none us
      cases hall with
      | nil => exact absurd rfl hf
      | @cons dividend u divisors rest _ hrest =>
        rw [Option.bind_some, Number.divide?, Number.divideBy?_eq_none_iff, or_iff_right hsome]
        constructor
        · rintro ⟨v, hv, hzero⟩
          obtain ⟨op, hop, hvalue⟩ := exists_left_of_forall₂ hrest v hv
          exact ⟨dividend, divisors, rfl, op, hop, v, hvalue, hzero⟩
        · rintro ⟨_, _, heq, op, hop, v, hvalue, hzero⟩
          cases heq
          obtain ⟨v', hv', hvalue'⟩ := exists_right_of_forall₂ hrest op hop
          obtain rfl := Option.some.inj (hvalue.symm.trans hvalue')
          exact ⟨v, hv', hzero⟩

/-- A formula comes to nothing exactly if it divides by zero. -/
theorem Formula.value?_eq_none_iff {f : Formula} (hf : f.HasOperands) :
    f.value? x = none ↔ f.DividesByZero x := by
  induction f using Formula.induction with
  | step f ih =>
    rw [value?_eq_none_iff_operands (hf f (.self f))]
    constructor
    · rintro (⟨op, hop, hnone⟩ | ⟨dividend, divisors, rfl, hzero⟩)
      · obtain ⟨g, rfl, hg⟩ := Operand.exists_nested_of_value? hnone
        exact ((ih g hop (hf.nested hop)).1 hg).nested hop
      · exact ⟨dividend, divisors, .self _, hzero⟩
    · rintro ⟨dividend, divisors, hpart, hzero⟩
      cases hpart with
      | self => exact .inr ⟨dividend, divisors, rfl, hzero⟩
      | @nested _ g _ hpart hmem =>
        refine .inl ⟨.nested g, hmem, ?_⟩
        exact (ih g hmem (hf.nested hmem)).2 ⟨dividend, divisors, hpart, hzero⟩

end ZeroDivisors

/-! ### Qualities -/

namespace IntervalQuality

/-- The worst of several qualities; without any, the best one. -/
def worstOf (qualities : List IntervalQuality) : IntervalQuality :=
  qualities.foldr worst validated

theorem worst_validated (q : IntervalQuality) : worst q validated = q := by
  rw [worst_comm, validated_worst]

theorem rank_injective : Function.Injective rank := by
  intro a b h
  cases a <;> cases b <;> first | rfl | cases h

theorem worstOf_append (as bs : List IntervalQuality) :
    worstOf (as ++ bs) = worst (worstOf as) (worstOf bs) := by
  induction as with
  | nil => exact (validated_worst _).symm
  | cons a as ih =>
    show worst a (worstOf (as ++ bs)) = worst (worst a (worstOf as)) (worstOf bs)
    rw [ih, worst_assoc]

theorem rank_worstOf_le_iff {k : Nat} {qualities : List IntervalQuality} :
    (worstOf qualities).rank ≤ k ↔ ∀ q ∈ qualities, q.rank ≤ k := by
  induction qualities with
  | nil => simp [worstOf, rank]
  | cons q rest ih =>
    rw [List.forall_mem_cons, ← ih]
    show (worst q (worstOf rest)).rank ≤ k ↔ _
    rw [rank_worst, Nat.max_le]

/-- The order of the qualities and how often each of them occurs do not matter. -/
theorem worstOf_congr {as bs : List IntervalQuality} (h : ∀ q, q ∈ as ↔ q ∈ bs) :
    worstOf as = worstOf bs := by
  apply rank_injective
  apply Nat.le_antisymm
  · exact rank_worstOf_le_iff.2 fun q hq => rank_worstOf_le_iff.1 le_rfl q ((h q).1 hq)
  · exact rank_worstOf_le_iff.2 fun q hq => rank_worstOf_le_iff.1 le_rfl q ((h q).2 hq)

end IntervalQuality

/-! ### Readings as numbers and qualities -/

namespace Sample

open IntervalQuality

theorem value_foldl_join (f : Float → Float → Float) (x : Sample) (ys : List Sample) :
    (ys.foldl (Signal.join f) x).value = (ys.map Sample.value).foldl f x.value := by
  induction ys generalizing x with
  | nil => rfl
  | cons y rest ih => exact ih (Signal.join f x y)

theorem quality_foldl_join (f : Float → Float → Float) (x : Sample) (ys : List Sample) :
    (ys.foldl (Signal.join f) x).quality = worst x.quality (worstOf (ys.map Sample.quality)) := by
  induction ys generalizing x with
  | nil => exact (worst_validated _).symm
  | cons y rest ih =>
    have hrest := ih (Signal.join f x y)
    rw [List.foldl_cons, hrest, List.map_cons]
    exact worst_assoc _ _ _

theorem map_value_fold? (f : Float → Float → Float) (xs : List Sample) :
    (fold? f xs).map Sample.value = Number.fold? f (xs.map Sample.value) := by
  cases xs with
  | nil => rfl
  | cons x rest => exact congrArg some (value_foldl_join f x rest)

theorem quality_of_fold? {f : Float → Float → Float} {xs : List Sample} {y : Sample}
    (h : fold? f xs = some y) : y.quality = worstOf (xs.map Sample.quality) := by
  cases xs with
  | nil => cases h
  | cons x rest =>
    cases h
    exact quality_foldl_join f x rest

theorem map_value_divideBy? (x : Sample) (ys : List Sample) :
    (divideBy? x ys).map Sample.value = Number.divideBy? x.value (ys.map Sample.value) := by
  induction ys generalizing x with
  | nil => rfl
  | cons y rest ih =>
    rw [divideBy?, quotient?, List.map_cons, Number.divideBy?]
    split
    · rfl
    · rw [Option.bind_some, ih]
      rfl

theorem quality_of_divideBy? {x z : Sample} {ys : List Sample} (h : divideBy? x ys = some z) :
    z.quality = worst x.quality (worstOf (ys.map Sample.quality)) := by
  induction ys generalizing x with
  | nil =>
    cases h
    exact (worst_validated _).symm
  | cons y rest ih =>
    obtain ⟨q, hq, h⟩ := Option.bind_eq_some_iff.1 h
    unfold quotient? at hq
    split at hq
    · cases hq
    · cases hq
      rw [ih h, List.map_cons]
      exact worst_assoc _ _ _

theorem map_value_divide? (xs : List Sample) :
    (divide? xs).map Sample.value = Number.divide? (xs.map Sample.value) := by
  cases xs with
  | nil => rfl
  | cons x rest => exact map_value_divideBy? x rest

theorem quality_of_divide? {xs : List Sample} {y : Sample} (h : divide? xs = some y) :
    y.quality = worstOf (xs.map Sample.quality) := by
  cases xs with
  | nil => cases h
  | cons x rest => exact quality_of_divideBy? h

end Sample

section Readings

variable (input : String → Sample)

mutual

/-- Read with samples, a formula has the number that it comes to. -/
theorem Formula.value_reading : ∀ f : Formula,
    (f.reading fun name => some (input name)).map Sample.value =
      f.value? fun name => (input name).value
  | .add ops => by
    rw [Formula.reading, Formula.value?, ← Operand.values_readings ops, Option.map_bind,
      Option.bind_map]
    exact congrArg _ (funext fun xs => Sample.map_value_fold? _ xs)
  | .sub a b => by
    rw [Formula.reading, Formula.value?, ← Operand.value_reading a, ← Operand.value_reading b]
    cases a.reading fun name => some (input name) <;>
      cases b.reading fun name => some (input name) <;> rfl
  | .mul ops => by
    rw [Formula.reading, Formula.value?, ← Operand.values_readings ops, Option.map_bind,
      Option.bind_map]
    exact congrArg _ (funext fun xs => Sample.map_value_fold? _ xs)
  | .div ops => by
    rw [Formula.reading, Formula.value?, ← Operand.values_readings ops, Option.map_bind,
      Option.bind_map]
    exact congrArg _ (funext fun xs => Sample.map_value_divide? xs)
  | .pos op => by
    rw [Formula.reading, Formula.value?, ← Operand.value_reading op]
    cases op.reading fun name => some (input name) <;> rfl
  | .operand op => Operand.value_reading op

theorem Operand.value_reading : ∀ op : Operand,
    (op.reading fun name => some (input name)).map Sample.value =
      op.value? fun name => (input name).value
  | .meter _ => rfl
  | .constant _ => rfl
  | .variable _ => rfl
  | .nested f => Formula.value_reading f

theorem Operand.values_readings : ∀ ops : List Operand,
    (Operand.readings (fun name => some (input name)) ops).map (List.map Sample.value) =
      Operand.values? (fun name => (input name).value) ops
  | [] => rfl
  | op :: rest => by
    rw [Operand.readings, Operand.values?, ← Operand.value_reading op,
      ← Operand.values_readings rest]
    cases op.reading fun name => some (input name) <;>
      cases Operand.readings (fun name => some (input name)) rest <;> rfl

end

/-- The worst quality among the samples of several references. -/
def Reference.worstQuality (refs : List Reference) : IntervalQuality :=
  .worstOf (refs.map fun r => (input r.name).quality)

theorem Reference.worstQuality_append (as bs : List Reference) :
    worstQuality input (as ++ bs) = (worstQuality input as).worst (worstQuality input bs) := by
  unfold worstQuality
  rw [List.map_append, IntervalQuality.worstOf_append]

mutual

/-- Read with samples, a formula is as good as the worst of those that it refers to. -/
theorem Formula.quality_reading : ∀ (f : Formula) {x : Sample},
    (f.reading fun name => some (input name)) = some x →
      x.quality = Reference.worstQuality input f.allReferences
  | .add ops, x, h => by
    obtain ⟨xs, hxs, h⟩ := Option.bind_eq_some_iff.1 h
    rw [Sample.quality_of_fold? h, Operand.qualities_readings ops hxs, Formula.allReferences]
  | .sub a b, x, h => by
    obtain ⟨u, hu, h⟩ := Option.bind_eq_some_iff.1 h
    obtain ⟨v, hv, h⟩ := Option.bind_eq_some_iff.1 h
    cases h
    rw [Formula.allReferences, Reference.worstQuality_append, ← Operand.quality_reading a hu,
      ← Operand.quality_reading b hv]
    rfl
  | .mul ops, x, h => by
    obtain ⟨xs, hxs, h⟩ := Option.bind_eq_some_iff.1 h
    rw [Sample.quality_of_fold? h, Operand.qualities_readings ops hxs, Formula.allReferences]
  | .div ops, x, h => by
    obtain ⟨xs, hxs, h⟩ := Option.bind_eq_some_iff.1 h
    rw [Sample.quality_of_divide? h, Operand.qualities_readings ops hxs, Formula.allReferences]
  | .pos op, x, h => by
    obtain ⟨u, hu, h⟩ := Option.bind_eq_some_iff.1 h
    cases h
    rw [Formula.allReferences, ← Operand.quality_reading op hu]
    rfl
  | .operand op, x, h => Operand.quality_reading op h

theorem Operand.quality_reading : ∀ (op : Operand) {x : Sample},
    (op.reading fun name => some (input name)) = some x →
      x.quality = Reference.worstQuality input op.allReferences
  | .meter m, x, h => by
    cases h
    exact (IntervalQuality.worst_validated _).symm
  | .constant c, x, h => by
    cases h
    rfl
  | .variable v, x, h => by
    cases h
    exact (IntervalQuality.worst_validated _).symm
  | .nested f, x, h => Formula.quality_reading f h

theorem Operand.qualities_readings : ∀ (ops : List Operand) {xs : List Sample},
    Operand.readings (fun name => some (input name)) ops = some xs →
      IntervalQuality.worstOf (xs.map Sample.quality) =
        Reference.worstQuality input (Operand.listReferences ops)
  | [], xs, h => by
    cases h
    rfl
  | op :: rest, xs, h => by
    obtain ⟨y, hy, h⟩ := Option.bind_eq_some_iff.1 h
    obtain ⟨ys, hys, h⟩ := Option.bind_eq_some_iff.1 h
    cases h
    rw [Operand.listReferences, Reference.worstQuality_append, ← Operand.quality_reading op hy,
      ← Operand.qualities_readings rest hys]
    rfl

end

end Readings

end EnergyFormula
