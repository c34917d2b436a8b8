import EnergyFormula.Proofs.Number.ReadBack

/-!
# What numbers and texts denote

Finite floats and decimal texts denote rational numbers (`rational?`, `denoted?`).  Rounding is
monotone (`Magnitude.Holds.value_le`), so a number that is at most one is read as a float that is
at most one (`RoundsTo.mem_unit`); and a text is read as a finite number exactly if it denotes one
that does not overflow (`exists_readChars?_isFinite_iff`).
-/

namespace EnergyFormula.Number

open Float.Model UnpackedFloat

/-! ### Order -/

section Order

variable {m n : Magnitude} {v w : ℚ} {x : Float}

/-- What lies between two numbers of a cell lies in the cell. -/
theorem Magnitude.Holds.between (hv : m.Holds v) (hw : m.Holds w) {u : ℚ} (hvu : v ≤ u)
    (huw : u ≤ w) : m.Holds u := by
  refine ⟨hv.low.trans hvu, huw.trans hw.high, ?_⟩
  rcases hv.ends with heven | ⟨hlow, _⟩
  · exact .inl heven
  rcases hw.ends with heven | ⟨_, hhigh⟩
  · exact .inl heven
  exact .inr ⟨((lt_of_le_of_ne hv.low hlow).trans_le hvu).ne,
    (huw.trans_lt (lt_of_le_of_ne hw.high hhigh)).ne⟩

/-- Rounding is monotone. -/
theorem Magnitude.Holds.value_le (hm : m.IsCanonical) (hn : n.IsCanonical) (hv : m.Holds v)
    (hw : n.Holds w) (hle : v ≤ w) : m.value ≤ n.value := by
  by_contra hlt
  rw [not_le] at hlt
  -- otherwise one of the two cells would reach into the other
  have heq : m = n := by
    rcases le_total v n.value with h | h
    · exact (hv.between m.holds_self h hlt.le).unique hm hn n.holds_self
    · exact hv.unique hm hn (n.holds_self.between hw h hle)
  rw [heq] at hlt
  exact lt_irrefl _ hlt

theorem Magnitude.value_pos (hm : m.IsCanonical) : 0 < m.value :=
  mul_pos (Nat.cast_pos.2 hm.pos) (zpow_pos two_pos _)

theorem Magnitude.IsCanonical.value_lt_of_exponent_lt (hm : m.IsCanonical) (hn : n.IsCanonical)
    (h : m.exponent < n.exponent) : m.value < n.value := by
  have hnormal : 2 ^ 52 ≤ n.mantissa := hn.normal.resolve_right (by have := hm.least; omega)
  calc m.value < 2 ^ (53 : Int) * 2 ^ m.exponent := by
        refine mul_lt_mul_of_pos_right ?_ (zpow_pos two_pos _)
        exact_mod_cast hm.bits
    _ = 2 ^ (52 : Int) * 2 ^ (m.exponent + 1) := by
        rw [← zpow_add₀ two_ne_zero, ← zpow_add₀ two_ne_zero]
        congr 1
        omega
    _ ≤ 2 ^ (52 : Int) * 2 ^ n.exponent :=
        mul_le_mul_of_nonneg_left (zpow_le_zpow_right₀ one_le_two h) (by positivity)
    _ ≤ n.value := by
        refine mul_le_mul_of_nonneg_right ?_ (zpow_pos two_pos _).le
        exact_mod_cast hnormal

/-- Stored numbers are ordered by their exponents and then by their mantissas. -/
theorem Magnitude.IsCanonical.value_le_iff (hm : m.IsCanonical) (hn : n.IsCanonical) :
    m.value ≤ n.value ↔
      ((compare m.exponent n.exponent).then (compare m.mantissa n.mantissa)).isLE = true := by
  rcases lt_trichotomy m.exponent n.exponent with hlt | heq | hgt
  · rw [compare_lt_iff_lt.2 hlt]
    exact iff_of_true (hm.value_lt_of_exponent_lt hn hlt).le rfl
  · have hE : (0 : ℚ) < 2 ^ n.exponent := zpow_pos two_pos _
    unfold Magnitude.value
    rw [heq, compare_eq_iff_eq.2 rfl, mul_le_mul_iff_left₀ hE, Nat.cast_le]
    exact Nat.isLE_compare.symm
  · rw [compare_gt_iff_gt.2 hgt]
    exact iff_of_false (not_le.2 (hn.value_lt_of_exponent_lt hm hgt)) Bool.false_ne_true

theorem le_iff_unpack {x y : Float} : x ≤ y ↔ x.toModel.unpack.le y.toModel.unpack = true :=
  ⟨of_decide_eq_true, decide_eq_true⟩

theorem stored_le_stored_iff (hm : m.IsCanonical) (hn : n.IsCanonical) :
    m.stored hm ≤ n.stored hn ↔ m.value ≤ n.value := by
  rw [le_iff_unpack, m.unpack_stored hm, n.unpack_stored hn, hm.value_le_iff hn]
  rfl

theorem zero_le_stored (hm : m.IsCanonical) : 0 ≤ m.stored hm := by
  rw [le_iff_unpack, m.unpack_stored hm]
  rfl

/-- The number one. -/
theorem one_eq_stored :
    (1 : Float) = (Magnitude.ofNat 1).stored (Magnitude.isCanonical_ofNat (by decide) (by decide)) :=
  rfl

theorem stored_le_one_iff (hm : m.IsCanonical) : m.stored hm ≤ 1 ↔ m.value ≤ 1 := by
  rw [one_eq_stored, stored_le_stored_iff, Magnitude.value_ofNat, Nat.cast_one]

/-- What is rounded from a number that is at most one is at most one. -/
theorem RoundsTo.mem_unit (h : RoundsTo v x) (hv : v ≤ 1) :
    x.isFinite = true ∧ 0 ≤ x ∧ x ≤ 1 := by
  cases h with
  | zero _ => decide +kernel
  | stored hm hholds =>
    have hone := (Magnitude.ofNat 1).holds_self
    rw [Magnitude.value_ofNat, Nat.cast_one] at hone
    have hle := hholds.value_le hm (Magnitude.isCanonical_ofNat (by decide) (by decide)) hone hv
    rw [Magnitude.value_ofNat, Nat.cast_one] at hle
    exact ⟨Magnitude.isFinite_stored hm, zero_le_stored hm, (stored_le_one_iff hm).2 hle⟩
  | infinite hhigh => exact absurd hv (not_le.2 (one_lt_overflowBound.trans_le hhigh))

end Order

/-! ### Exact values -/

section Exact

variable {m : Magnitude} {x : Float} {q : ℚ}

theorem unpack_withSign_stored (hm : m.IsCanonical) (negative : Bool) :
    (withSign negative (m.stored hm)).toModel.unpack =
      .finite (signOf negative) m.mantissa m.exponent hm.pos := by
  cases negative with
  | false => exact m.unpack_stored hm
  | true =>
    show (Float.Model.pack (UnpackedFloat.neg (m.stored hm).toModel.unpack)).unpack = _
    rw [m.unpack_stored hm]
    exact unpack_pack ⟨hm.bits, hm.least, hm.normal, by have := hm.greatest; omega⟩

theorem magnitude?_withSign_stored (hm : m.IsCanonical) (negative : Bool) :
    magnitude? (withSign negative (m.stored hm)) = some m := by
  rw [magnitude?_eq, unpack_withSign_stored hm]
  rfl

theorem isNegative_withSign_stored (hm : m.IsCanonical) (negative : Bool) :
    isNegative (withSign negative (m.stored hm)) = negative := by
  have hsign := sign_eq.2 _ _ _ _ (unpack_withSign_stored hm negative)
  cases negative <;> cases hnegative : isNegative (withSign _ (m.stored hm)) <;>
    rw [hnegative] at hsign <;> first | rfl | cases hsign

/-- A finite number is zero, or it has a magnitude and a sign. -/
theorem finite_cases (hx : x.isFinite = true) : (∃ s, x.toModel.unpack = .zero s) ∨
    ∃ (m : Magnitude) (hm : m.IsCanonical) (negative : Bool),
      x = withSign negative (m.stored hm) := by
  have hfinite : x.toModel.unpack.isFinite = true := hx
  cases hu : x.toModel.unpack with
  | notANumber => rw [hu] at hfinite; cases hfinite
  | infinity s => rw [hu] at hfinite; cases hfinite
  | zero s => exact .inl ⟨s, rfl⟩
  | finite s mantissa e hm => exact .inr ⟨_, isCanonical_of_unpack hu, _, (withSign_stored hu).symm⟩

/-- The rational number with the given sign and size. -/
def signed (negative : Bool) (q : ℚ) : ℚ :=
  if negative then -q else q

theorem abs_signed (negative : Bool) (hq : 0 ≤ q) : |signed negative q| = q := by
  unfold signed
  split
  · rw [abs_neg, abs_of_nonneg hq]
  · exact abs_of_nonneg hq

/-- The rational number that a finite float is. -/
def rational? (x : Float) : Option ℚ :=
  (magnitude? x).map fun m => signed (isNegative x) m.value

theorem isSome_rational? (x : Float) : (rational? x).isSome = x.isFinite := by
  rw [rational?, Option.isSome_map, magnitude?_isSome]

theorem rational?_of_zero {s : Sign} (h : x.toModel.unpack = .zero s) : rational? x = some 0 := by
  rw [rational?, magnitude?_eq, h]
  show some (signed (isNegative x) ((0 : Nat) * 2 ^ (-1074 : Int))) = some 0
  rw [Nat.cast_zero, zero_mul, signed, neg_zero, ite_self]

theorem rational?_withSign_stored (hm : m.IsCanonical) (negative : Bool) :
    rational? (withSign negative (m.stored hm)) = some (signed negative m.value) := by
  rw [rational?, magnitude?_withSign_stored hm, isNegative_withSign_stored hm, Option.map_some]

theorem isFinite_iff_exists : x.isFinite = true ↔ ∃ q, rational? x = some q := by
  rw [← isSome_rational?, Option.isSome_iff_exists]

theorem isFinite_of_rational? (h : rational? x = some q) : x.isFinite = true :=
  isFinite_iff_exists.2 ⟨q, h⟩

/-- A float that is a rational number is zero, or it has a magnitude and a sign. -/
theorem rational_cases (h : rational? x = some q) : (∃ s, x.toModel.unpack = .zero s ∧ q = 0) ∨
    ∃ (m : Magnitude) (hm : m.IsCanonical) (negative : Bool),
      x = withSign negative (m.stored hm) ∧ q = signed negative m.value := by
  rcases finite_cases (isFinite_of_rational? h) with ⟨s, hzero⟩ | ⟨m, hm, negative, rfl⟩
  · rw [rational?_of_zero hzero] at h
    cases h
    exact .inl ⟨s, hzero, rfl⟩
  · rw [rational?_withSign_stored hm] at h
    cases h
    exact .inr ⟨m, hm, negative, rfl, rfl⟩

theorem abs_rational?_lt (h : rational? x = some q) : |q| < overflowBound := by
  rcases rational_cases h with ⟨s, _, rfl⟩ | ⟨m, hm, negative, _, rfl⟩
  · rw [abs_zero]
    exact one_pos.trans one_lt_overflowBound
  · rw [abs_signed _ (Magnitude.value_pos hm).le]
    exact m.holds_self.lt_overflowBound hm

/-- Floats are compared with zero and one as the rational numbers that they are. -/
theorem mem_unit_iff (h : rational? x = some q) : 0 ≤ x ∧ x ≤ 1 ↔ 0 ≤ q ∧ q ≤ 1 := by
  rcases rational_cases h with ⟨s, hzero, rfl⟩ | ⟨m, hm, negative, rfl, rfl⟩
  · refine iff_of_true ?_ ⟨le_rfl, zero_le_one⟩
    rw [le_iff_unpack, le_iff_unpack, hzero, unpack_one]
    cases s <;> exact ⟨rfl, rfl⟩
  · have hpos := Magnitude.value_pos hm
    cases negative with
    | false => exact and_congr (iff_of_true (zero_le_stored hm) hpos.le) (stored_le_one_iff hm)
    | true =>
      refine iff_of_false (fun hle => ?_) (fun hle => ?_)
      · have hzero := le_iff_unpack.1 hle.1
        rw [unpack_withSign_stored hm] at hzero
        cases hzero
      · exact absurd hle.1 (not_le.2 (neg_lt_zero.2 hpos))

end Exact

/-! ### Texts -/

/-- The rational number that a text denotes: a decimal with an optional sign. -/
def denoted? (s : List Char) : Option ℚ :=
  let (negative, rest) := splitSign s
  (readDecimal? rest).map fun d => signed negative d.value

theorem Decimal.value_nonneg (d : Decimal) : 0 ≤ d.value :=
  mul_nonneg (Nat.cast_nonneg _) (zpow_pos (by norm_num) _).le

theorem isFinite_neg (x : Float) : (-x).isFinite = x.isFinite := by
  have hneg : -x = .ofModel (.pack x.toModel.unpack.neg) := rfl
  have hx : x.isFinite = x.toModel.unpack.isFinite := rfl
  cases hu : x.toModel.unpack with
  | notANumber => rw [hneg, hx, hu]; rfl
  | infinity s => rw [hneg, hx, hu]; cases s <;> rfl
  | zero s => rw [hneg, hx, hu]; cases s <;> rfl
  | finite s m e hm =>
    have hfinite : x.isFinite = true := by rw [hx, hu]; rfl
    rw [hfinite]
    exact (Below.neg le_rfl (isFinite_iff_below.1 hfinite)).isFinite le_rfl

theorem isFinite_withSign (negative : Bool) (x : Float) :
    (withSign negative x).isFinite = x.isFinite := by
  cases negative with
  | false => rfl
  | true => exact isFinite_neg x

/-- The words for what is not finite are no decimals. -/
theorem exists_readUnsigned?_isFinite_iff {s : List Char} :
    (∃ x, readUnsigned? s = some x ∧ x.isFinite = true) ↔
      ∃ d, readDecimal? s = some d ∧ d.value < overflowBound := by
  unfold readUnsigned?
  cases hd : readDecimal? s with
  | some d =>
    have hfinite := (Decimal.roundsTo_toFloat d).isFinite_iff
    constructor
    · rintro ⟨x, hx, hfin⟩
      cases hx
      exact ⟨d, rfl, hfinite.1 hfin⟩
    · rintro ⟨d', hd', hlt⟩
      cases hd'
      exact ⟨_, rfl, hfinite.2 hlt⟩
  | none =>
    refine iff_of_false ?_ (by rintro ⟨d, hd', _⟩; cases hd')
    rintro ⟨x, hx, hfin⟩
    dsimp only at hx
    split at hx <;> cases hx <;> cases hfin

/-- A text is read as a finite number exactly if it denotes one that does not overflow. -/
theorem exists_readChars?_isFinite_iff {s : List Char} :
    (∃ x, readChars? s = some x ∧ x.isFinite = true) ↔
      ∃ q, denoted? s = some q ∧ |q| < overflowBound := by
  unfold readChars? denoted?
  generalize splitSign s = p
  obtain ⟨negative, rest⟩ := p
  simp only [Option.map_eq_some_iff]
  constructor
  · rintro ⟨_, ⟨x, hx, rfl⟩, hfin⟩
    rw [isFinite_withSign] at hfin
    obtain ⟨d, hd, hlt⟩ := exists_readUnsigned?_isFinite_iff.1 ⟨x, hx, hfin⟩
    exact ⟨_, ⟨d, hd, rfl⟩, by rwa [abs_signed _ d.value_nonneg]⟩
  · rintro ⟨_, ⟨d, hd, rfl⟩, hlt⟩
    rw [abs_signed _ d.value_nonneg] at hlt
    obtain ⟨x, hx, hfin⟩ := exists_readUnsigned?_isFinite_iff.2 ⟨d, hd, hlt⟩
    exact ⟨_, ⟨x, hx, rfl⟩, by rwa [isFinite_withSign]⟩

end EnergyFormula.Number
