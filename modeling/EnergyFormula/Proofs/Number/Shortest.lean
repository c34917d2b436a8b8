import EnergyFormula.Proofs.Number.Nearest

/-!
# Shortest decimals

The shortest decimal of a number lies in its cell (`Magnitude.holds_shortest`), and so reads back as
the number.  The search ends with a point of a grid in the cell: on the last of its grids the points
are so close that the one just below the middle lies in the cell (`Magnitude.point?_last_ne_none`).
-/

namespace EnergyFormula.Number

/-! ### Marks of a cell -/

section Marks

variable {unit : Nat} (hunit : 0 < unit) (a c : Nat) (k : Int)

include hunit

/-- A mark `a / unit` and a point `c · 10^k` are both scaled by the same factor. -/
theorem scaled_marks :
    ∃ factor : ℚ, 0 < factor ∧
      ((a * 10 ^ (-k).toNat : Nat) : ℚ) = a / unit * factor ∧
        ((c * (unit * 10 ^ k.toNat) : Nat) : ℚ) = c * 10 ^ k * factor := by
  have hunit' : (0 : ℚ) < unit := Nat.cast_pos.2 hunit
  have hten : (0 : ℚ) < 10 ^ (-k).toNat := pow_pos (by norm_num) _
  refine ⟨unit * 10 ^ (-k).toNat, mul_pos hunit' hten, ?_, ?_⟩
  · push_cast
    field_simp
  · rw [zpow_eq_div (by norm_num) k]
    push_cast
    field_simp

theorem mark_le_point_iff :
    a * 10 ^ (-k).toNat ≤ c * (unit * 10 ^ k.toNat) ↔ (a : ℚ) / unit ≤ c * 10 ^ k := by
  obtain ⟨factor, hfactor, hmark, hpoint⟩ := scaled_marks hunit a c k
  rw [← Nat.cast_le (α := ℚ), hmark, hpoint, mul_le_mul_iff_left₀ hfactor]

theorem point_le_mark_iff :
    c * (unit * 10 ^ k.toNat) ≤ a * 10 ^ (-k).toNat ↔ (c : ℚ) * 10 ^ k ≤ a / unit := by
  obtain ⟨factor, hfactor, hmark, hpoint⟩ := scaled_marks hunit a c k
  rw [← Nat.cast_le (α := ℚ), hmark, hpoint, mul_le_mul_iff_left₀ hfactor]

end Marks

namespace Magnitude

variable {m : Magnitude}

theorem cell_unit_pos (m : Magnitude) : 0 < m.cell.unit :=
  Nat.two_pow_pos _

theorem scale_div_unit (m : Magnitude) :
    ((2 ^ (m.exponent - 2).toNat : Nat) : ℚ) / m.cell.unit = 2 ^ m.exponent / 4 := by
  have hunit : m.cell.unit = 2 ^ (-(m.exponent - 2)).toNat := by
    rw [neg_sub]
    rfl
  rw [hunit]
  push_cast
  rw [← zpow_eq_div two_ne_zero, zpow_sub₀ two_ne_zero]
  norm_num

/-- Where the cell begins. -/
theorem cell_low_div_unit (hm : 0 < m.mantissa) :
    (m.cell.low : ℚ) / m.cell.unit = (m.mantissa - m.gapBelow) * 2 ^ m.exponent := by
  have hlow : (m.cell.low : ℚ) =
      4 * (m.mantissa - m.gapBelow) * (2 ^ (m.exponent - 2).toNat : Nat) := by
    unfold gapBelow
    show ((((4 * m.mantissa -
      if m.mantissa = Nat.pow 2 52 ∧ m.exponent ≠ -1074 then 1 else 2) *
        2 ^ (m.exponent - 2).toNat : Nat)) : ℚ) = _
    have hpow : Nat.pow 2 52 = 2 ^ 52 := rfl
    rw [hpow]
    split_ifs
    · rw [Nat.cast_mul, Nat.cast_sub (by omega)]
      push_cast
      ring
    · rw [Nat.cast_mul, Nat.cast_sub (by omega)]
      push_cast
      ring
  rw [hlow, mul_div_assoc, scale_div_unit]
  ring

theorem cell_middle_div_unit (m : Magnitude) :
    (m.cell.middle : ℚ) / m.cell.unit = m.mantissa * 2 ^ m.exponent := by
  have hmiddle : (m.cell.middle : ℚ) = 4 * m.mantissa * (2 ^ (m.exponent - 2).toNat : Nat) := by
    show ((4 * m.mantissa * 2 ^ (m.exponent - 2).toNat : Nat) : ℚ) = _
    push_cast
    ring
  rw [hmiddle, mul_div_assoc, scale_div_unit]
  ring

/-- Where the cell ends. -/
theorem cell_high_div_unit (m : Magnitude) :
    (m.cell.high : ℚ) / m.cell.unit = (m.mantissa + 1 / 2) * 2 ^ m.exponent := by
  have hhigh : (m.cell.high : ℚ) =
      4 * (m.mantissa + 1 / 2) * (2 ^ (m.exponent - 2).toNat : Nat) := by
    show (((4 * m.mantissa + 2) * 2 ^ (m.exponent - 2).toNat : Nat) : ℚ) = _
    push_cast
    ring
  rw [hhigh, mul_div_assoc, scale_div_unit]
  ring

/-- A point of a grid that lies in the cell of a magnitude reads back as the magnitude. -/
theorem holds_of_contains (hm : 0 < m.mantissa) {k : Int} {c : Nat}
    (h : m.cell.contains k c = true) : m.Holds (c * 10 ^ k) := by
  have hlow := mark_le_point_iff m.cell_unit_pos m.cell.low c k
  have hhigh := point_le_mark_iff m.cell_unit_pos m.cell.high c k
  have hlow' := point_le_mark_iff m.cell_unit_pos m.cell.low c k
  have hhigh' := mark_le_point_iff m.cell_unit_pos m.cell.high c k
  rw [cell_low_div_unit hm] at hlow hlow'
  rw [cell_high_div_unit] at hhigh hhigh'
  have hpow (n : Nat) : Nat.pow 10 n = 10 ^ n := rfl
  unfold Cell.contains at h
  simp only [hpow] at h
  split at h
  · rename_i hclosed
    rw [Bool.and_eq_true, decide_eq_true_eq, decide_eq_true_eq, hlow, hhigh] at h
    exact ⟨h.1, h.2, .inl (of_decide_eq_true hclosed)⟩
  · -- an open cell does not reach its ends
    rw [Bool.and_eq_true, decide_eq_true_eq, decide_eq_true_eq, ← Nat.not_le, ← Nat.not_le, hlow',
      hhigh', not_le, not_le] at h
    exact ⟨h.1.le, h.2.le, .inr ⟨h.1.ne, h.2.ne⟩⟩

theorem contains_of_between (hm : 0 < m.mantissa) {k : Int} {c : Nat}
    (hlow : (m.mantissa - m.gapBelow) * 2 ^ m.exponent < (c : ℚ) * 10 ^ k)
    (hhigh : (c : ℚ) * 10 ^ k < (m.mantissa + 1 / 2) * 2 ^ m.exponent) :
    m.cell.contains k c = true := by
  rw [← cell_low_div_unit hm, ← not_le, ← point_le_mark_iff m.cell_unit_pos, Nat.not_le] at hlow
  rw [← cell_high_div_unit, ← not_le, ← mark_le_point_iff m.cell_unit_pos, Nat.not_le] at hhigh
  have hpow (n : Nat) : Nat.pow 10 n = 10 ^ n := rfl
  unfold Cell.contains
  simp only [hpow]
  split
  · exact Bool.and_eq_true_iff.2 ⟨decide_eq_true hlow.le, decide_eq_true hhigh.le⟩
  · exact Bool.and_eq_true_iff.2 ⟨decide_eq_true hlow, decide_eq_true hhigh⟩

end Magnitude

/-! ### The search -/

/-- A power of ten lies below a power of two, as `10^3` lies below `2^10` and `2^93` below
`10^28`. -/
theorem ten_zpow_le_two_zpow {k j : Int}
    (h : 0 ≤ k ∧ 10 * k ≤ 3 * j ∨ k < 0 ∧ 93 * k ≤ 28 * j) : (10 : ℚ) ^ k ≤ 2 ^ j := by
  have hten : (0 : ℚ) ≤ 10 ^ k := zpow_nonneg (by norm_num) k
  have htwo : (0 : ℚ) ≤ 2 ^ j := zpow_nonneg two_pos.le j
  rcases h with ⟨hk, hj⟩ | ⟨hk, hj⟩
  · -- both sides to the power of three, and below to the power of twenty-eight
    refine le_of_pow_le_pow_left₀ three_ne_zero htwo ?_
    calc ((10 : ℚ) ^ k) ^ 3 = (10 ^ (3 : Int)) ^ k := by
          rw [← zpow_natCast, ← zpow_mul, ← zpow_mul, mul_comm]
          rfl
      _ ≤ (2 ^ (10 : Int)) ^ k := zpow_le_zpow_left₀ hk (by norm_num) (by norm_num)
      _ = 2 ^ (10 * k) := (zpow_mul _ _ _).symm
      _ ≤ 2 ^ (3 * j) := zpow_le_zpow_right₀ one_le_two hj
      _ = (2 ^ j) ^ 3 := by
          rw [← zpow_natCast, ← zpow_mul, mul_comm]
          rfl
  · obtain ⟨n, rfl⟩ : ∃ n : Nat, k = -n := ⟨(-k).toNat, by omega⟩
    refine le_of_pow_le_pow_left₀ (n := 28) (by decide) htwo ?_
    have hpow : (2 : ℚ) ^ (93 * n) ≤ 10 ^ (28 * n) := by
      rw [pow_mul, pow_mul]
      exact pow_le_pow_left₀ (by norm_num) (by norm_num) n
    calc ((10 : ℚ) ^ (-(n : Int))) ^ 28 = (10 ^ (28 * n))⁻¹ := by
          rw [zpow_neg, zpow_natCast, inv_pow, ← pow_mul, mul_comm]
      _ ≤ (2 ^ (93 * n))⁻¹ := inv_anti₀ (by positivity) hpow
      _ = 2 ^ (-(93 * n : Nat) : Int) := by rw [zpow_neg, zpow_natCast]
      _ ≤ 2 ^ (28 * j) := zpow_le_zpow_right₀ one_le_two (by push_cast; linarith)
      _ = (2 ^ j) ^ 28 := by
          rw [← zpow_natCast, ← zpow_mul, mul_comm]
          rfl

/-- If one of the grids of the search has a point in the cell, then the search ends with such a
point. -/
theorem Cell.contains_coarsest {cell : Cell} {tie : Tie} :
    ∀ {steps : Nat} {k j : Int}, k - steps < j → j ≤ k → cell.point? tie j ≠ none →
      cell.contains (cell.coarsest tie steps k).exponent (cell.coarsest tie steps k).coefficient =
        true
  | 0, k, j, hlow, hhigh, _ => by omega
  | steps + 1, k, j, hlow, hhigh, hpoint => by
    rw [coarsest]
    cases hk : cell.point? tie k with
    | some c => exact contains_of_point? hk
    | none =>
      have hne : j ≠ k := by
        rintro rfl
        exact hpoint hk
      exact contains_coarsest (by omega) (by omega) hpoint

namespace Magnitude

variable {m : Magnitude}

theorem decimalBound_le (hm : m.IsCanonical) :
    0 ≤ m.decimalBound - 23 ∧ 10 * (m.decimalBound - 23) ≤ 3 * (m.exponent - 2) ∨
      m.decimalBound - 23 < 0 ∧ 93 * (m.decimalBound - 23) ≤ 28 * (m.exponent - 2) := by
  have hlog : m.mantissa.log2 < 53 := (Nat.log2_lt (Nat.ne_of_gt hm.pos)).2 hm.bits
  have hleast := hm.least
  have hgreatest := hm.greatest
  unfold decimalBound
  omega

/-- On the last grid of the search the point below the middle lies in the cell. -/
theorem point?_last_ne_none (hm : m.IsCanonical) (tie : Tie) :
    m.cell.point? tie (m.decimalBound - 23) ≠ none := by
  generalize hk : m.decimalBound - 23 = k
  have hstep : (10 : ℚ) ^ k ≤ 2 ^ (m.exponent - 2) :=
    ten_zpow_le_two_zpow (hk ▸ decimalBound_le hm)
  have hquarter : (2 : ℚ) ^ (m.exponent - 2) = 2 ^ m.exponent / 4 := by
    rw [zpow_sub₀ two_ne_zero]
    norm_num
  have hE : (0 : ℚ) < 2 ^ m.exponent := zpow_pos two_pos _
  have hten : (0 : ℚ) < 10 ^ k := zpow_pos (by norm_num) k
  intro hnone
  have hcontains := Cell.contains_eq_false_of_point? hnone
  have hunit : 0 < m.cell.unit * 10 ^ k.toNat :=
    Nat.mul_pos m.cell_unit_pos (Nat.pow_pos (by decide))
  generalize hc : m.cell.middle * Nat.pow 10 (-k).toNat / (m.cell.unit * Nat.pow 10 k.toNat) = c
    at hcontains
  -- the middle lies between this point and the next one
  have hbelow : (c : ℚ) * 10 ^ k ≤ m.mantissa * 2 ^ m.exponent := by
    rw [← cell_middle_div_unit, ← point_le_mark_iff m.cell_unit_pos, ← hc]
    exact Nat.div_mul_le_self _ _
  have habove : (m.mantissa : ℚ) * 2 ^ m.exponent < (c + 1 : Nat) * 10 ^ k := by
    rw [← cell_middle_div_unit, ← not_le, ← point_le_mark_iff m.cell_unit_pos, Nat.not_le, ← hc]
    exact Nat.lt_mul_of_div_lt (Nat.lt_succ_self _) hunit
  push_cast at habove
  obtain ⟨hgap, _⟩ := m.gapBelow_mem
  have hgap' : 1 / 4 ≤ m.gapBelow := by
    unfold gapBelow
    split <;> norm_num
  rw [hquarter] at hstep
  refine Bool.eq_false_iff.1 hcontains (contains_of_between hm.pos ?_ ?_)
  · have := mul_le_mul_of_nonneg_right hgap' hE.le
    linarith
  · linarith

/-- The shortest decimal of a number reads back as the number. -/
theorem holds_shortest (hm : m.IsCanonical) (tie : Tie) :
    m.Holds ((shortest tie m).coefficient * 10 ^ (shortest tie m).exponent) := by
  have hshortest : shortest tie m = m.cell.coarsest tie 24 m.decimalBound :=
    if_neg (Nat.ne_of_gt hm.pos)
  rw [hshortest]
  refine holds_of_contains hm.pos (Cell.contains_coarsest ?_ ?_ (point?_last_ne_none hm tie))
  · omega
  · omega

end Magnitude

end EnergyFormula.Number
