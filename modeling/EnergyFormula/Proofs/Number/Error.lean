import EnergyFormula.Proofs.Number.Exact

/-!
# Errors of rounded operations

Away from the ends of the range a rounding changes a number by at most one part in `2^53`
(`RoundsTo.near`).  `Within n` counts how many such changes lie between two numbers; the count is
added up over products and quotients, and is kept by sums, so that each operation on floats adds
one to it (`Near.mul`, `Near.div`, `Near.add`).
-/

namespace EnergyFormula.Number

/-! ### Counting roundings -/

/-- The relative error of one rounding. -/
def roundoff : ℚ :=
  1 / 2 ^ 53

theorem roundoff_pos : 0 < roundoff := by
  norm_num [roundoff]

theorem roundoff_lt_one : roundoff < 1 := by
  norm_num [roundoff]

/-- What is left after so many roundings downwards. -/
theorem rounded_pow_mem (n : Nat) :
    0 < (1 - roundoff) ^ n ∧ 1 - n * roundoff ≤ (1 - roundoff) ^ n ∧ (1 - roundoff) ^ n ≤ 1 := by
  have hone := roundoff_lt_one
  have hpos := roundoff_pos
  refine ⟨pow_pos (by linarith) n, ?_, pow_le_one₀ (by linarith) (by linarith)⟩
  have hsub : 1 - roundoff = 1 + -roundoff := by ring
  have hbernoulli := one_add_mul_le_pow (a := -roundoff) (by linarith) n
  rw [hsub]
  linarith

/-- At most `n` roundings lie between the two numbers, whichever is the greater one. -/
structure Within (n : Nat) (v w : ℚ) : Prop where
  low : v * (1 - roundoff) ^ n ≤ w
  high : w * (1 - roundoff) ^ n ≤ v

namespace Within

variable {n k : Nat} {u v w v' w' : ℚ}

theorem refl (v : ℚ) : Within 0 v v :=
  ⟨by rw [pow_zero, mul_one], by rw [pow_zero, mul_one]⟩

theorem symm (h : Within n v w) : Within n w v :=
  ⟨h.high, h.low⟩

theorem trans (h : Within n u v) (h' : Within k v w) : Within (n + k) u w := by
  have hn := (rounded_pow_mem n).1.le
  have hk := (rounded_pow_mem k).1.le
  constructor
  · calc u * (1 - roundoff) ^ (n + k) = u * (1 - roundoff) ^ n * (1 - roundoff) ^ k := by
          rw [pow_add, mul_assoc]
      _ ≤ v * (1 - roundoff) ^ k := mul_le_mul_of_nonneg_right h.low hk
      _ ≤ w := h'.low
  · calc w * (1 - roundoff) ^ (n + k) = w * (1 - roundoff) ^ k * (1 - roundoff) ^ n := by
          rw [add_comm, pow_add, mul_assoc]
      _ ≤ v * (1 - roundoff) ^ n := mul_le_mul_of_nonneg_right h'.high hn
      _ ≤ u := h.high

theorem mono (h : Within n v w) (hv : 0 < v) (hw : 0 < w) (hle : n ≤ k) : Within k v w := by
  have hpow : (1 - roundoff) ^ k ≤ (1 - roundoff) ^ n :=
    pow_le_pow_of_le_one (by linarith [roundoff_lt_one]) (by linarith [roundoff_pos]) hle
  exact ⟨(mul_le_mul_of_nonneg_left hpow hv.le).trans h.low,
    (mul_le_mul_of_nonneg_left hpow hw.le).trans h.high⟩

theorem mul (h : Within n v w) (h' : Within k v' w') (hv : 0 < v) (hw : 0 < w) (hv' : 0 < v')
    (hw' : 0 < w') : Within (n + k) (v * v') (w * w') := by
  have hk := (rounded_pow_mem k).1.le
  constructor
  · calc v * v' * (1 - roundoff) ^ (n + k)
        = v * (1 - roundoff) ^ n * (v' * (1 - roundoff) ^ k) := by rw [pow_add]; ring
      _ ≤ w * w' := mul_le_mul h.low h'.low (mul_nonneg hv'.le hk) hw.le
  · calc w * w' * (1 - roundoff) ^ (n + k)
        = w * (1 - roundoff) ^ n * (w' * (1 - roundoff) ^ k) := by rw [pow_add]; ring
      _ ≤ v * v' := mul_le_mul h.high h'.high (mul_nonneg hw'.le hk) hv.le

theorem inv (h : Within n v w) (hv : 0 < v) (hw : 0 < w) : Within n v⁻¹ w⁻¹ := by
  constructor
  · rw [inv_mul_le_iff₀ hv, le_mul_inv_iff₀ hw, mul_comm]
    exact h.high
  · rw [inv_mul_le_iff₀ hw, le_mul_inv_iff₀ hv, mul_comm]
    exact h.low

theorem div (h : Within n v w) (h' : Within k v' w') (hv : 0 < v) (hw : 0 < w) (hv' : 0 < v')
    (hw' : 0 < w') : Within (n + k) (v / v') (w / w') :=
  h.mul (h'.inv hv' hw') hv hw (inv_pos.2 hv') (inv_pos.2 hw')

theorem add (h : Within n v w) (h' : Within n v' w') : Within n (v + v') (w + w') :=
  ⟨by rw [add_mul]; exact add_le_add h.low h'.low,
    by rw [add_mul]; exact add_le_add h.high h'.high⟩

/-- So many roundings change a number by so many parts of it. -/
theorem sub_le (h : Within n v w) (hv : 0 ≤ v) : v - w ≤ v * (n * roundoff) := by
  have hpow := mul_le_mul_of_nonneg_left (rounded_pow_mem n).2.1 hv
  have hlow := h.low
  linarith

end Within

/-! ### Floats -/

/-- The number is far from both ends of the range. -/
def IsModerate (v : ℚ) : Prop :=
  2 ^ (-500 : Int) ≤ v ∧ v ≤ 2 ^ (500 : Int)

theorem IsModerate.pos {v : ℚ} (h : IsModerate v) : 0 < v :=
  (zpow_pos two_pos _).trans_le h.1

/-- The float is a stored number, and at most `n` roundings lie between it and the number. -/
def Near (n : Nat) (v : ℚ) (x : Float) : Prop :=
  ∃ (m : Magnitude) (hm : m.IsCanonical), x = m.stored hm ∧ Within n v m.value

section Near

variable {m : Magnitude} {v w : ℚ} {x y : Float} {i j : Nat}

/-- A number in the cell of a magnitude with all bits of its mantissa. -/
theorem Magnitude.Holds.within (hm : m.IsCanonical) (h : m.Holds v)
    (hnormal : 2 ^ 52 ≤ m.mantissa) : Within 1 v m.value := by
  obtain ⟨_, hgap⟩ := m.gapBelow_mem
  have hE : (0 : ℚ) < 2 ^ m.exponent := zpow_pos two_pos _
  have hmantissa : (2 : ℚ) ^ 52 ≤ m.mantissa := by exact_mod_cast hnormal
  -- with all bits in the mantissa half a step is a roundoff of the value
  have hstep : 2 ^ m.exponent / 2 ≤ m.value * roundoff := by
    have hle := mul_le_mul_of_nonneg_right hmantissa hE.le
    unfold Magnitude.value roundoff
    linarith
  have hlow : m.value - 2 ^ m.exponent / 2 ≤ v := by
    refine le_trans ?_ h.low
    have := mul_le_mul_of_nonneg_right hgap hE.le
    unfold Magnitude.value
    linarith
  have hhigh : v ≤ m.value + 2 ^ m.exponent / 2 := by
    refine h.high.trans ?_
    unfold Magnitude.value
    linarith
  constructor
  · calc v * (1 - roundoff) ^ 1 ≤ (m.value + m.value * roundoff) * (1 - roundoff) := by
          rw [pow_one]
          exact mul_le_mul_of_nonneg_right (by linarith) (sub_nonneg.2 roundoff_lt_one.le)
      _ = m.value - m.value * roundoff ^ 2 := by ring
      _ ≤ m.value := sub_le_self _ (mul_nonneg (Magnitude.value_pos hm).le (sq_nonneg _))
  · rw [pow_one]
    linarith

/-- So few roundings neither halve nor double a number. -/
theorem Within.mem_of_moderate (h : Within i v w) (hi : i ≤ 64) (hv : IsModerate v) :
    2 ^ (-501 : Int) ≤ w ∧ w ≤ 2 ^ (501 : Int) := by
  have hpow : 1 / 2 ≤ (1 - roundoff) ^ i := by
    have hcast : (i : ℚ) ≤ 64 := by exact_mod_cast hi
    have hsmall : 64 * roundoff ≤ 1 / 2 := by norm_num [roundoff]
    have := mul_le_mul_of_nonneg_right hcast roundoff_pos.le
    linarith [(rounded_pow_mem i).2.1]
  have hlow : (2 : ℚ) ^ (-500 : Int) = 2 * 2 ^ (-501 : Int) := two_zpow_eq_two_mul (-500)
  have hhigh : (2 : ℚ) ^ (501 : Int) = 2 * 2 ^ (500 : Int) := two_zpow_eq_two_mul 501
  have hbelow := mul_le_mul_of_nonneg_left hpow hv.pos.le
  have hw : 0 ≤ w := (mul_nonneg hv.pos.le (rounded_pow_mem i).1.le).trans h.low
  have habove := mul_le_mul_of_nonneg_left hpow hw
  constructor
  · linarith [hv.1, h.low]
  · calc w ≤ 2 * v := by linarith [h.high]
      _ ≤ 2 * 2 ^ (500 : Int) := mul_le_mul_of_nonneg_left hv.2 two_pos.le
      _ = 2 ^ (501 : Int) := hhigh.symm

/-- The mantissa has all of its bits, unless the number is very small. -/
theorem Magnitude.Holds.normal (hm : m.IsCanonical) (h : m.Holds v) (hv : 2 ^ (-501 : Int) ≤ v) :
    2 ^ 52 ≤ m.mantissa := by
  refine hm.normal.resolve_right fun hleast => ?_
  have hlt := h.lt_two_zpow hm
  rw [hleast] at hlt
  have := (zpow_lt_zpow_iff_right₀ one_lt_two).1 (hv.trans_lt hlt)
  omega

/-- One rounding is added to those that lie before it. -/
theorem RoundsTo.near (h : RoundsTo w x) (hw : Within i v w) (hi : i ≤ 64) (hv : IsModerate v) :
    Near (i + 1) v x := by
  obtain ⟨hlow, hhigh⟩ := hw.mem_of_moderate hi hv
  cases h with
  | zero hzero =>
    have hlt : (2 : ℚ) ^ (-1075 : Int) < 2 ^ (-501 : Int) :=
      zpow_lt_zpow_right₀ one_lt_two (by decide)
    exact absurd hzero (not_le.2 (hlt.trans_le hlow))
  | stored hm hholds =>
    exact ⟨_, hm, rfl, hw.trans (hholds.within hm (hholds.normal hm hlow))⟩
  | infinite hover =>
    have hlt : (2 : ℚ) ^ (501 : Int) < overflowBound := by
      refine lt_of_lt_of_le (zpow_lt_zpow_right₀ one_lt_two (by decide : (501 : Int) < 971)) ?_
      exact le_mul_of_one_le_left (by positivity) (by norm_num)
    exact absurd hover (not_le.2 (hhigh.trans_lt hlt))

theorem Near.mul (hx : Near i v x) (hy : Near j w y) (hij : i + j ≤ 64) (hv : 0 < v) (hw : 0 < w)
    (hmoderate : IsModerate (v * w)) : Near (i + j + 1) (v * w) (x * y) := by
  obtain ⟨m, hm, rfl, hvm⟩ := hx
  obtain ⟨n, hn, rfl, hwn⟩ := hy
  exact (roundsTo_mul hm hn).near
    (hvm.mul hwn hv (Magnitude.value_pos hm) hw (Magnitude.value_pos hn)) hij hmoderate

theorem Near.div (hx : Near i v x) (hy : Near j w y) (hij : i + j ≤ 64) (hv : 0 < v) (hw : 0 < w)
    (hmoderate : IsModerate (v / w)) : Near (i + j + 1) (v / w) (x / y) := by
  obtain ⟨m, hm, rfl, hvm⟩ := hx
  obtain ⟨n, hn, rfl, hwn⟩ := hy
  exact (roundsTo_div hm hn).near
    (hvm.div hwn hv (Magnitude.value_pos hm) hw (Magnitude.value_pos hn)) hij hmoderate

theorem Near.mono (hx : Near i v x) (hv : 0 < v) (hij : i ≤ j) : Near j v x := by
  obtain ⟨m, hm, rfl, hvm⟩ := hx
  exact ⟨m, hm, rfl, hvm.mono hv (Magnitude.value_pos hm) hij⟩

theorem Near.add (hx : Near i v x) (hy : Near i w y) (hi : i ≤ 64)
    (hmoderate : IsModerate (v + w)) : Near (i + 1) (v + w) (x + y) := by
  obtain ⟨m, hm, rfl, hvm⟩ := hx
  obtain ⟨n, hn, rfl, hwn⟩ := hy
  exact (roundsTo_add hm hn).near (hvm.add hwn) hi hmoderate

/-- Natural numbers with at most 53 bits are exact. -/
theorem near_ofNat_exact {n : Nat} (hn : 0 < n) (hbits : n < 2 ^ 53) :
    Near 0 n (Float.ofNat n) := by
  refine ⟨Magnitude.ofNat n, Magnitude.isCanonical_ofNat hn hbits, ?_, ?_⟩
  · rw [ofNat_of_lt hbits, toFloat_eq_stored hn hbits]
  · rw [Magnitude.value_ofNat]
    exact .refl _

theorem near_ofNat {n : Nat} (hmoderate : IsModerate n) : Near 1 n (Float.ofNat n) :=
  (roundsTo_ofNat n).near (.refl _) (by decide) hmoderate

end Near

end EnergyFormula.Number
