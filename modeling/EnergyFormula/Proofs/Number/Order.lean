import EnergyFormula.Proofs.Number.Exact

/-!
# The order of numbers

Finite floats are compared as the rational numbers that they are (`compare_unpack`), so their order
is that of the rational numbers (`le_iff`, `lt_iff`, `beq_iff`).
-/

namespace EnergyFormula.Number

open Float.Model UnpackedFloat

variable {m n : Magnitude} {x y : Float} {p q : ℚ}

/-- Stored numbers are compared by their exponents and then by their mantissas. -/
theorem Magnitude.IsCanonical.compare_value (hm : m.IsCanonical) (hn : n.IsCanonical) :
    (compare m.exponent n.exponent).then (compare m.mantissa n.mantissa) =
      compare m.value n.value := by
  rcases lt_trichotomy m.exponent n.exponent with hlt | heq | hgt
  · rw [compare_lt_iff_lt.2 hlt, compare_lt_iff_lt.2 (hm.value_lt_of_exponent_lt hn hlt)]
    rfl
  · have hpos : (0 : ℚ) < 2 ^ n.exponent := zpow_pos two_pos _
    have hcast : StrictMono (Nat.cast : Nat → ℚ) := Nat.strictMono_cast
    unfold Magnitude.value
    rw [heq, compare_eq_iff_eq.2 rfl, ← cmp_eq_compare, ← cmp_eq_compare,
      cmp_mul_pos_right hpos, hcast.cmp_map_eq]
    rfl
  · rw [compare_gt_iff_gt.2 hgt, compare_gt_iff_gt.2 (hn.value_lt_of_exponent_lt hm hgt)]
    rfl

/-- Finite floats are compared as the rational numbers that they are. -/
theorem compare_unpack (hx : rational? x = some p) (hy : rational? y = some q) :
    x.toModel.unpack.compare y.toModel.unpack = some (compare p q) := by
  rcases rational_cases hx with ⟨s, hu, rfl⟩ | ⟨m, hm, negative, rfl, rfl⟩
  · rcases rational_cases hy with ⟨t, hv, rfl⟩ | ⟨n, hn, negative, rfl, rfl⟩
    · rw [hu, hv, compare_eq_iff_eq.2 rfl]
      rfl
    · have hpos := Magnitude.value_pos hn
      rw [hu, unpack_withSign_stored hn]
      cases negative with
      | false => exact congrArg some (compare_lt_iff_lt.2 hpos).symm
      | true => exact congrArg some (compare_gt_iff_gt.2 (neg_lt_zero.2 hpos)).symm
  · have hpos := Magnitude.value_pos hm
    rcases rational_cases hy with ⟨t, hv, rfl⟩ | ⟨n, hn, negative', rfl, rfl⟩
    · rw [hv, unpack_withSign_stored hm]
      cases negative with
      | false => exact congrArg some (compare_gt_iff_gt.2 hpos).symm
      | true => exact congrArg some (compare_lt_iff_lt.2 (neg_lt_zero.2 hpos)).symm
    · have hpos' := Magnitude.value_pos hn
      have hcompare := hm.compare_value hn
      rw [unpack_withSign_stored hm, unpack_withSign_stored hn]
      cases negative with
      | false =>
        cases negative' with
        | false => exact congrArg some hcompare
        | true => exact congrArg some (compare_gt_iff_gt.2 ((neg_lt_zero.2 hpos').trans hpos)).symm
      | true =>
        cases negative' with
        | false => exact congrArg some (compare_lt_iff_lt.2 ((neg_lt_zero.2 hpos).trans hpos')).symm
        | true =>
          -- among negative numbers the order is reversed
          have hanti : StrictAnti fun q : ℚ => -q := fun _ _ => neg_lt_neg
          have hswap : compare (-m.value) (-n.value) = (compare m.value n.value).swap := by
            rw [← Std.OrientedOrd.eq_swap, ← cmp_eq_compare, ← cmp_eq_compare]
            exact hanti.cmp_map_eq _ _
          rw [← hcompare] at hswap
          exact congrArg some hswap.symm

theorem le_iff (hx : rational? x = some p) (hy : rational? y = some q) : x ≤ y ↔ p ≤ q := by
  rw [le_iff_unpack, UnpackedFloat.le, compare_unpack hx hy]
  exact Std.LawfulBCmp.isLE_iff_le

theorem lt_iff (hx : rational? x = some p) (hy : rational? y = some q) : x < y ↔ p < q := by
  have hunpack : x < y ↔ x.toModel.unpack.lt y.toModel.unpack = true :=
    ⟨of_decide_eq_true, decide_eq_true⟩
  rw [hunpack, UnpackedFloat.lt, compare_unpack hx hy, beq_iff_eq, Option.some.injEq,
    compare_lt_iff_lt]

theorem beq_iff (hx : rational? x = some p) (hy : rational? y = some q) :
    (x == y) = true ↔ p = q := by
  show x.toModel.unpack.beq y.toModel.unpack = true ↔ p = q
  rw [UnpackedFloat.beq, compare_unpack hx hy, beq_iff_eq, Option.some.injEq, compare_eq_iff_eq]

theorem rational?_zero : rational? 0 = some 0 :=
  rational?_of_zero (s := .positive) rfl

/-- The absolute value of a float is that of the rational number. -/
theorem rational?_abs (h : rational? x = some q) : rational? x.abs = some |q| := by
  have habs : x.abs = .ofModel (.pack x.toModel.unpack.abs) := rfl
  rcases rational_cases h with ⟨s, hzero, rfl⟩ | ⟨m, hm, negative, rfl, rfl⟩
  · rw [habs, hzero, abs_zero]
    exact rational?_zero
  · rw [habs, unpack_withSign_stored hm, abs_signed _ (Magnitude.value_pos hm).le]
    exact rational?_withSign_stored hm false

theorem rational?_one : rational? 1 = some 1 := by
  have hone := rational?_withSign_stored
    (Magnitude.isCanonical_ofNat Nat.one_pos (by decide : 1 < 2 ^ 53)) false
  rw [Magnitude.value_ofNat, Nat.cast_one] at hone
  exact hone

end EnergyFormula.Number
