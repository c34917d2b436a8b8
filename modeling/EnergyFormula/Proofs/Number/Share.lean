import EnergyFormula.Proofs.Number.Order

/-!
# Shares of numbers

A share is a number from zero to one (`IsShare`).  The difference of one and a share is a share
(`IsShare.one_sub`), and so is the product of two (`IsShare.mul`), however the results are rounded.
A finite number times a share is a part of the number (`IsShare.isPartOf`): it has the sign of the
number or is zero, and it is no larger.
-/

namespace EnergyFormula.Number

open Float.Model UnpackedFloat

/-! ### Products with a share -/

section Products

variable {m n : Magnitude} {x y : Float}

theorem unpack_pack_zero (s : Sign) : (Float.Model.pack (.zero s)).unpack = .zero s := by
  cases s <;> rfl

/-- A zero times a finite number is a zero. -/
theorem mul_of_zero {s : Sign} (hx : x.toModel.unpack = .zero s) (hy : y.isFinite = true) :
    ∃ t, (x * y).toModel.unpack = .zero t := by
  show ∃ t, (Float.Model.pack (UnpackedFloat.mul .binary64 x.toModel.unpack
    y.toModel.unpack)).unpack = .zero t
  have hfinite : y.toModel.unpack.isFinite = true := hy
  rw [hx]
  cases hu : y.toModel.unpack with
  | notANumber => rw [hu] at hfinite; cases hfinite
  | infinity t => rw [hu] at hfinite; cases hfinite
  | zero t => exact ⟨s * t, unpack_pack_zero _⟩
  | finite t n e hn => exact ⟨s * t, unpack_pack_zero _⟩

/-- A number times a magnitude that is at most one is a zero, or it has the same sign and is no
larger. -/
theorem mul_stored_cases (hm : m.IsCanonical) (hn : n.IsCanonical) (hone : n.value ≤ 1)
    (negative : Bool) :
    (∃ s, (withSign negative (m.stored hm) * n.stored hn).toModel.unpack = .zero s) ∨
      ∃ (k : Magnitude) (hk : k.IsCanonical),
        withSign negative (m.stored hm) * n.stored hn = withSign negative (k.stored hk) ∧
          k.value ≤ m.value := by
  have hmul : withSign negative (m.stored hm) * n.stored hn =
      .ofModel (.pack (roundWithAccuracy .binary64 (signOf negative) (m.mantissa * n.mantissa)
        (m.exponent + n.exponent) .exact)) := by
    show Float.ofModel (.pack (UnpackedFloat.mul .binary64
      (withSign negative (m.stored hm)).toModel.unpack (n.stored hn).toModel.unpack)) = _
    rw [unpack_withSign_stored hm, n.unpack_stored hn]
    cases negative <;> rfl
  have hvalue : m.value * n.value =
      (m.mantissa * n.mantissa : Nat) * 2 ^ (m.exponent + n.exponent) := mul_two_zpow_mul _ _ _ _
  have hle : m.value * n.value ≤ m.value := mul_le_of_le_one_right (Magnitude.value_pos hm).le hone
  have hbits := hm.bits_mul hn
  rw [hmul]
  by_cases hlow : m.value * n.value ≤ 2 ^ (-1075 : Int)
  · left
    rw [roundWithAccuracy_exact_of_le (hvalue ▸ hlow) hbits]
    exact ⟨signOf negative, unpack_pack_zero _⟩
  · right
    have hhigh := hle.trans_lt (m.holds_self.lt_overflowBound hm)
    obtain ⟨k, hk, hholds⟩ := exists_holds (not_le.1 hlow) hhigh
    refine ⟨k, hk, ?_, hholds.value_le hk hm m.holds_self hle⟩
    rw [Magnitude.Holds.roundWithAccuracy_exact hk (hvalue ▸ hholds) hbits, pack_signOf]

end Products

/-! ### Shares -/

/-- The number is from zero to one. -/
def IsShare (x : Float) : Prop :=
  ∃ q, rational? x = some q ∧ 0 ≤ q ∧ q ≤ 1

section Shares

variable {x y : Float} {p q : ℚ}

theorem isShare_iff : IsShare x ↔ x.isFinite = true ∧ 0 ≤ x ∧ x ≤ 1 := by
  constructor
  · rintro ⟨q, hq, hunit⟩
    exact ⟨isFinite_of_rational? hq, (mem_unit_iff hq).2 hunit⟩
  · rintro ⟨hfinite, hunit⟩
    obtain ⟨q, hq⟩ := isFinite_iff_exists.1 hfinite
    exact ⟨q, hq, (mem_unit_iff hq).1 hunit⟩

/-- A share is a zero, or it has a magnitude that is at most one. -/
theorem IsShare.cases (h : IsShare x) : (∃ s, x.toModel.unpack = .zero s) ∨
    ∃ (n : Magnitude) (hn : n.IsCanonical), x = n.stored hn ∧ n.value ≤ 1 := by
  obtain ⟨q, hq, hzero, hone⟩ := h
  rcases rational_cases hq with ⟨s, hx, _⟩ | ⟨n, hn, negative, rfl, rfl⟩
  · exact .inl ⟨s, hx⟩
  · cases negative with
    | false => exact .inr ⟨n, hn, rfl, hone⟩
    | true => exact absurd hzero (not_le.2 (neg_lt_zero.2 (Magnitude.value_pos hn)))

/-- A number times a share is no larger than the number and not of the other sign. -/
theorem IsShare.rational?_mul (hy : IsShare y) (hx : rational? x = some p) :
    ∃ r, rational? (x * y) = some r ∧ |r| ≤ |p| ∧ 0 ≤ p * r := by
  -- a product that is zero is small enough, whatever its sign
  have hzero : ∀ s, (x * y).toModel.unpack = .zero s →
      ∃ r, rational? (x * y) = some r ∧ |r| ≤ |p| ∧ 0 ≤ p * r := by
    intro s hs
    refine ⟨0, rational?_of_zero hs, ?_, (mul_zero p).ge⟩
    rw [abs_zero]
    exact abs_nonneg p
  have hfinite := (isShare_iff.1 hy).1
  rcases rational_cases hx with ⟨s, hs, rfl⟩ | ⟨m, hm, negative, rfl, rfl⟩
  · obtain ⟨t, ht⟩ := mul_of_zero hs hfinite
    exact hzero t ht
  rcases hy.cases with ⟨s, hs⟩ | ⟨n, hn, rfl, hone⟩
  · obtain ⟨t, ht⟩ := mul_of_zero hs (isFinite_of_rational? hx)
    rw [Number.mul_comm] at ht
    exact hzero t ht
  rcases mul_stored_cases hm hn hone negative with ⟨s, hs⟩ | ⟨k, hk, hproduct, hle⟩
  · exact hzero s hs
  · have hmpos := Magnitude.value_pos hm
    have hkpos := Magnitude.value_pos hk
    rw [hproduct, rational?_withSign_stored hk]
    refine ⟨_, rfl, ?_, ?_⟩
    · rwa [abs_signed _ hkpos.le, abs_signed _ hmpos.le]
    · cases negative with
      | false => exact (mul_pos hmpos hkpos).le
      | true => exact (mul_pos_of_neg_of_neg (neg_lt_zero.2 hmpos) (neg_lt_zero.2 hkpos)).le

/-- The product of two shares is a share. -/
theorem IsShare.mul (hx : IsShare x) (hy : IsShare y) : IsShare (x * y) := by
  obtain ⟨p, hp, hzero, hone⟩ := hx
  obtain ⟨r, hr, hle, hsign⟩ := hy.rational?_mul hp
  rw [abs_of_nonneg hzero] at hle
  obtain ⟨hlow, hhigh⟩ := abs_le.1 hle
  refine ⟨r, hr, ?_, hhigh.trans hone⟩
  rcases hzero.lt_or_eq with hpos | rfl
  · exact nonneg_of_mul_nonneg_right hsign hpos
  · rwa [neg_zero] at hlow

/-- What a share leaves of one is a share. -/
theorem IsShare.one_sub (hx : IsShare x) : IsShare (1 - x) := by
  rcases hx.cases with ⟨s, hs⟩ | ⟨n, hn, rfl, hone⟩
  · have hsub : 1 - x = 1 := by
      show Float.ofModel (.pack (UnpackedFloat.sub .binary64 (1 : Float).toModel.unpack
        x.toModel.unpack)) = 1
      rw [hs, unpack_one]
      cases s <;> rfl
    rw [hsub]
    exact ⟨1, rational?_one, zero_le_one, le_rfl⟩
  · have hle : n.value ≤ (Magnitude.ofNat 1).value := by
      rwa [Magnitude.value_ofNat, Nat.cast_one]
    have hround := roundsTo_sub (Magnitude.isCanonical_ofNat (by decide) (by decide)) hn hle
    rw [← one_eq_stored, Magnitude.value_ofNat, Nat.cast_one] at hround
    have hpos := Magnitude.value_pos hn
    exact isShare_iff.2 (hround.mem_unit (sub_le_self 1 hpos.le))

end Shares

/-! ### Parts -/

/-- A part of a number: it has the sign of the number or is zero, and it is no larger. -/
structure IsPartOf (part whole : Float) : Prop where
  sign : (part == 0) = true ∨ (0 < whole ∧ 0 < part) ∨ (whole < 0 ∧ part < 0)
  abs_le : part.abs ≤ whole.abs

section Parts

variable {x y : Float}

/-- What a share leaves of a finite number is a part of it. -/
theorem IsShare.isPartOf (hy : IsShare y) (hx : x.isFinite = true) : IsPartOf (x * y) x := by
  obtain ⟨p, hp⟩ := isFinite_iff_exists.1 hx
  obtain ⟨r, hr, hle, hsign⟩ := hy.rational?_mul hp
  refine ⟨?_, (le_iff (rational?_abs hr) (rational?_abs hp)).2 hle⟩
  -- a number that is zero has no other part than zero
  have hne : r ≠ 0 → p ≠ 0 := by
    rintro hr rfl
    rw [abs_zero] at hle
    exact hr (abs_nonpos_iff.1 hle)
  rw [beq_iff hr rational?_zero, lt_iff rational?_zero hp, lt_iff rational?_zero hr,
    lt_iff hp rational?_zero, lt_iff hr rational?_zero]
  rcases lt_trichotomy r 0 with hneg | hzero | hpos
  · right; right
    exact ⟨lt_of_le_of_ne (nonpos_of_mul_nonneg_left hsign hneg) (hne hneg.ne), hneg⟩
  · exact .inl hzero
  · right; left
    exact ⟨lt_of_le_of_ne (nonneg_of_mul_nonneg_left hsign hpos) (hne hpos.ne').symm, hpos⟩

/-- What a share leaves of a number that is not negative is at most the number. -/
theorem IsShare.mul_le (hy : IsShare y) (hx : x.isFinite = true) (hzero : 0 ≤ x) : x * y ≤ x := by
  obtain ⟨p, hp⟩ := isFinite_iff_exists.1 hx
  obtain ⟨r, hr, hle, _⟩ := hy.rational?_mul hp
  rw [le_iff rational?_zero hp] at hzero
  rw [abs_of_nonneg hzero] at hle
  exact (le_iff hr hp).2 ((le_abs_self r).trans hle)

end Parts

end EnergyFormula.Number
