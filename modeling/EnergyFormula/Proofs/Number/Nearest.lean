import EnergyFormula.Proofs.Number.Rounding

/-!
# Rounding to the nearest number

The numbers that read back as one finite number form its cell (`Magnitude.Holds`): half a step to
either side of it, but only a quarter below a power of two.  Every positive number lies in exactly
one cell, unless it is too small or too large (`exists_holds`, `Magnitude.Holds.unique`); it is
rounded to the number of its cell, to zero or to infinity (`RoundsTo`, `roundsTo_quotient`).  The
stages are those of the rounding:

* `shiftRight_quotientMantissa`: a quotient keeps its two residual bits when it is shifted;
* `roundedMantissa_quotientMantissa`: by these bits it is rounded to the nearest whole number;
* `Magnitude.Holds.exponent`: the shift ends at the exponent of the number in whose cell the
  quotient lies, or one below it just under a power of two.
-/

namespace EnergyFormula.Number

open Float.Model UnpackedFloat

/-! ### Quotients of mantissas -/

/-- The quotient `a / b` as a mantissa: its whole part, the bit behind the point, and whether
anything is left behind that bit. -/
def quotientMantissa (a b : Nat) : ExtendedMantissa :=
  ⟨a / b, decide (b ≤ 2 * (a % b)), decide (2 * (a % b) % b ≠ 0)⟩

theorem ofMantissaAndAccuracy_quotient (a : Nat) {b : Nat} (hb : 0 < b) :
    ExtendedMantissa.ofMantissaAndAccuracy (a / b) (accuracyOfFraction (a % b) b) =
      quotientMantissa a b := by
  have hr : a % b < b := Nat.mod_lt a hb
  unfold quotientMantissa accuracyOfFraction
  generalize a % b = r at hr
  by_cases hzero : r = 0
  · subst hzero
    have hhalf : ¬ b ≤ 2 * 0 := by omega
    rw [if_pos rfl, decide_eq_false hhalf, Nat.mul_zero, Nat.zero_mod]
    rfl
  rw [if_neg hzero]
  rcases Nat.lt_trichotomy (2 * r) b with hlt | heq | hgt
  · have hhalf : ¬ b ≤ 2 * r := by omega
    have hrest : 2 * r % b ≠ 0 := by
      rw [Nat.mod_eq_of_lt hlt]
      omega
    rw [Nat.compare_eq_lt.2 hlt, decide_eq_false hhalf, decide_eq_true hrest]
    rfl
  · rw [heq, Nat.compare_eq_eq.2 rfl, Nat.mod_self, decide_eq_true (Nat.le_refl b)]
    rfl
  · have hrest : 2 * r % b ≠ 0 := by
      rw [Nat.mod_eq_sub_mod hgt.le, Nat.mod_eq_of_lt (by omega)]
      omega
    rw [Nat.compare_eq_gt.2 hgt, decide_eq_true hgt.le, decide_eq_true hrest]
    rfl

theorem shiftRightOne_quotientMantissa (a : Nat) {b : Nat} (hb : 0 < b) :
    (quotientMantissa a b).shiftRightOne = quotientMantissa a (b * 2) := by
  have hr : a % b < b := Nat.mod_lt a hb
  have hrest : a % (b * 2) = a % b + b * (a / b % 2) := Nat.mod_mul
  have htwo : 2 * (a % (b * 2)) % (b * 2) = a % b * 2 := by
    rw [Nat.mul_comm 2, Nat.mul_mod_mul_right, hrest, Nat.add_mul_mod_self_left, Nat.mod_mod]
  unfold ExtendedMantissa.shiftRightOne quotientMantissa
  rw [ExtendedMantissa.mk.injEq]
  refine ⟨Nat.div_div_eq_div_mul a b 2, ?_, ?_⟩
  · dsimp only
    rw [hrest]
    rcases Nat.mod_two_eq_zero_or_one (a / b) with h | h
    · rw [h, Nat.mul_zero, Nat.add_zero]
      have : ¬ b * 2 ≤ 2 * (a % b) := by omega
      rw [decide_eq_false this]
      rfl
    · rw [h, Nat.mul_one]
      have : b * 2 ≤ 2 * (a % b + b) := by omega
      rw [decide_eq_true this]
      rfl
  · dsimp only
    rw [htwo]
    -- nothing is left exactly if there was no remainder
    by_cases hzero : a % b = 0
    · rw [hzero, Nat.mul_zero, Nat.zero_mod]
      have : ¬ b ≤ 0 := by omega
      rw [decide_eq_false this]
      rfl
    · have hright : a % b * 2 ≠ 0 := by omega
      rw [decide_eq_true hright, Bool.or_eq_true, decide_eq_true_eq, decide_eq_true_eq]
      by_cases hhalf : b ≤ 2 * (a % b)
      · exact .inl hhalf
      · right
        rw [Nat.mod_eq_of_lt (by omega)]
        omega

theorem shiftRight_quotientMantissa (a : Nat) {b : Nat} (hb : 0 < b) (k : Nat) :
    quotientMantissa a b >>> k = quotientMantissa a (b * 2 ^ k) := by
  induction k with
  | zero => rw [Nat.pow_zero, Nat.mul_one]; rfl
  | succ k ih =>
    show (quotientMantissa a b >>> k).shiftRightOne = _
    rw [ih, shiftRightOne_quotientMantissa a (Nat.mul_pos hb (Nat.two_pow_pos k)), Nat.mul_assoc,
      Nat.pow_succ]

theorem roundedMantissa_eq (q : Nat) (round sticky : Bool) :
    (ExtendedMantissa.mk q round sticky).roundedMantissa =
      if round then if sticky then q + 1 else q + q % 2 else q := by
  cases round <;> cases sticky <;> rfl

/-- A quotient is rounded to a whole number that it is at most one half away from; at a distance of
one half the number must be even. -/
theorem roundedMantissa_quotientMantissa {a b m : Nat} (hb : 0 < b) (hlow : 2 * (m * b) ≤ 2 * a + b)
    (hhigh : 2 * a ≤ 2 * (m * b) + b)
    (htie : m % 2 = 0 ∨ 2 * (m * b) ≠ 2 * a + b ∧ 2 * a ≠ 2 * (m * b) + b) :
    (quotientMantissa a b).roundedMantissa = m := by
  have hr : a % b < b := Nat.mod_lt a hb
  have hdiv : b * (a / b) + a % b = a := Nat.div_add_mod a b
  -- the whole part is the number itself, or one less
  have hwhole : a / b = m ∨ a / b + 1 = m := by
    have hle : a / b ≤ m := by
      refine Nat.le_of_lt_succ ((Nat.div_lt_iff_lt_mul hb).2 ?_)
      rw [Nat.succ_mul]
      omega
    have hge : m ≤ a / b + 1 := by
      by_contra hlt
      have hmul : (a / b + 2) * b ≤ m * b := Nat.mul_le_mul_right b (by omega)
      have hexpand : (a / b + 2) * b = b * (a / b) + 2 * b := by ring
      omega
    omega
  have hproduct : a / b = m ∧ m * b = b * (a / b) ∨ a / b + 1 = m ∧ m * b = b * (a / b) + b := by
    rcases hwhole with hm | hm
    · exact .inl ⟨hm, by rw [← hm, Nat.mul_comm]⟩
    · exact .inr ⟨hm, by rw [← hm, Nat.succ_mul, Nat.mul_comm]⟩
  unfold quotientMantissa
  rw [roundedMantissa_eq]
  by_cases hhalf : b ≤ 2 * (a % b)
  · rw [if_pos (decide_eq_true hhalf)]
    have hmod : 2 * (a % b) % b = 2 * (a % b) - b := by
      rw [Nat.mod_eq_sub_mod hhalf, Nat.mod_eq_of_lt (by omega)]
    by_cases hrest : 2 * (a % b) % b = 0
    · rw [decide_eq_false (not_not_intro hrest), if_neg Bool.false_ne_true]
      omega
    · rw [if_pos (decide_eq_true hrest)]
      omega
  · rw [if_neg (by rwa [decide_eq_true_eq])]
    omega

/-! ### Cells -/

/-- The mantissa and the exponent are those of a finite number other than zero. -/
structure Magnitude.IsCanonical (m : Magnitude) : Prop where
  pos : 0 < m.mantissa
  bits : m.mantissa < 2 ^ 53
  least : -1074 ≤ m.exponent
  normal : 2 ^ 52 ≤ m.mantissa ∨ m.exponent = -1074
  greatest : m.exponent ≤ 971

/-- Half a step, but only a quarter where the steps below are half as wide. -/
def Magnitude.gapBelow (m : Magnitude) : ℚ :=
  if m.mantissa = 2 ^ 52 ∧ m.exponent ≠ -1074 then 1 / 4 else 1 / 2

/-- The numbers that read back as the magnitude; the ends belong to them if the mantissa is even. -/
structure Magnitude.Holds (m : Magnitude) (v : ℚ) : Prop where
  low : (m.mantissa - m.gapBelow) * 2 ^ m.exponent ≤ v
  high : v ≤ (m.mantissa + 1 / 2) * 2 ^ m.exponent
  ends : m.mantissa % 2 = 0 ∨
    (m.mantissa - m.gapBelow) * 2 ^ m.exponent ≠ v ∧ v ≠ (m.mantissa + 1 / 2) * 2 ^ m.exponent

section Scale

variable {a b : Nat} (hb : 0 < b) (e : Int) (k m : Nat)

include hb

/-- A quotient on a coarser scale. -/
theorem quotient_scaled : (a : ℚ) / b * 2 ^ e = a / (b * 2 ^ k : Nat) * 2 ^ (e + k) := by
  have hb' : (b : ℚ) ≠ 0 := Nat.cast_ne_zero.2 (Nat.ne_of_gt hb)
  rw [zpow_add₀ two_ne_zero, zpow_natCast]
  push_cast
  field_simp

/-- A quotient lies at most one half above a number, compared without fractions. -/
theorem quotient_le_iff :
    (a : ℚ) / b * 2 ^ e ≤ (m + 1 / 2) * 2 ^ e ↔ 2 * a ≤ 2 * (m * b) + b := by
  have hb' : (0 : ℚ) < b := Nat.cast_pos.2 hb
  rw [mul_le_mul_iff_left₀ (zpow_pos two_pos e), div_le_iff₀ hb', ← Nat.cast_le (α := ℚ)]
  push_cast
  constructor <;> intro h <;> linarith

theorem le_quotient_iff :
    ((m : ℚ) - 1 / 2) * 2 ^ e ≤ a / b * 2 ^ e ↔ 2 * (m * b) ≤ 2 * a + b := by
  have hb' : (0 : ℚ) < b := Nat.cast_pos.2 hb
  rw [mul_le_mul_iff_left₀ (zpow_pos two_pos e), le_div_iff₀ hb', ← Nat.cast_le (α := ℚ)]
  push_cast
  constructor <;> intro h <;> linarith

theorem quotient_eq_of (h : 2 * a = 2 * (m * b) + b) :
    (a : ℚ) / b * 2 ^ e = (m + 1 / 2) * 2 ^ e := by
  have hb' : (b : ℚ) ≠ 0 := Nat.cast_ne_zero.2 (Nat.ne_of_gt hb)
  have h' : (2 : ℚ) * a = 2 * (m * b) + b := by exact_mod_cast h
  congr 1
  rw [div_eq_iff hb']
  linarith

theorem eq_quotient_of (h : 2 * (m * b) = 2 * a + b) :
    ((m : ℚ) - 1 / 2) * 2 ^ e = a / b * 2 ^ e := by
  have hb' : (b : ℚ) ≠ 0 := Nat.cast_ne_zero.2 (Nat.ne_of_gt hb)
  have h' : 2 * (m * b) = (2 : ℚ) * a + b := by exact_mod_cast h
  congr 1
  rw [eq_div_iff hb']
  linarith

/-- A quotient lies between two powers of two. -/
theorem quotient_lt_two_zpow : (a : ℚ) / b * 2 ^ e < 2 ^ totalExponent (a / b) e := by
  have hb' : (0 : ℚ) < b := Nat.cast_pos.2 hb
  have hlt : a < 2 ^ ((a / b).log2 + 1) * b := (Nat.div_lt_iff_lt_mul hb).1 Nat.lt_log2_self
  have htotal : totalExponent (a / b) e = (a / b).log2 + 1 + e := rfl
  rw [htotal, zpow_add₀ two_ne_zero]
  refine mul_lt_mul_of_pos_right ?_ (zpow_pos two_pos e)
  rw [div_lt_iff₀ hb']
  exact_mod_cast hlt

theorem two_zpow_le_quotient (hq : a / b ≠ 0) :
    (2 : ℚ) ^ (totalExponent (a / b) e - 1) ≤ a / b * 2 ^ e := by
  have hb' : (0 : ℚ) < b := Nat.cast_pos.2 hb
  have hle : 2 ^ (a / b).log2 * b ≤ a := (Nat.le_div_iff_mul_le hb).1 (Nat.log2_self_le hq)
  have hexponent : totalExponent (a / b) e - 1 = (a / b).log2 + e := by
    rw [totalExponent]
    omega
  rw [hexponent, zpow_add₀ two_ne_zero]
  refine mul_le_mul_of_nonneg_right ?_ (zpow_pos two_pos e).le
  rw [le_div_iff₀ hb']
  exact_mod_cast hle

end Scale

theorem Magnitude.gapBelow_mem (m : Magnitude) : 0 < m.gapBelow ∧ m.gapBelow ≤ 1 / 2 := by
  unfold gapBelow
  split <;> norm_num

theorem two_zpow_eq_two_mul (e : Int) : (2 : ℚ) ^ e = 2 * 2 ^ (e - 1) := by
  rw [← zpow_one_add₀ two_ne_zero]
  congr 1
  omega

/-- A power with any exponent as a quotient of two powers with natural ones. -/
theorem zpow_eq_div {x : ℚ} (hx : x ≠ 0) (k : Int) : x ^ k = x ^ k.toNat / x ^ (-k).toNat := by
  have hexponent : k = (k.toNat : Int) - ((-k).toNat : Int) := by omega
  conv_lhs => rw [hexponent]
  rw [zpow_sub₀ hx, zpow_natCast, zpow_natCast]

/-- What lies in the cell of a magnitude is less than the next power of two. -/
theorem Magnitude.Holds.lt_two_zpow {m : Magnitude} {v : ℚ} (hm : m.IsCanonical)
    (h : m.Holds v) : v < 2 ^ (53 + m.exponent) := by
  have hmantissa : (m.mantissa : ℚ) + 1 / 2 < 2 ^ (53 : Int) := by
    have hbits : (m.mantissa : ℚ) + 1 ≤ 2 ^ 53 := by exact_mod_cast hm.bits
    norm_num at hbits ⊢
    linarith
  calc v ≤ (m.mantissa + 1 / 2) * 2 ^ m.exponent := h.high
    _ < 2 ^ (53 : Int) * 2 ^ m.exponent := mul_lt_mul_of_pos_right hmantissa (zpow_pos two_pos _)
    _ = 2 ^ (53 + m.exponent) := (zpow_add₀ two_ne_zero _ _).symm

/-- Only the cell of a power of two reaches below this power, and only by a quarter of a step. -/
theorem Magnitude.Holds.of_lt_two_zpow {m : Magnitude} {v : ℚ} (hm : m.IsCanonical)
    (hne : m.exponent ≠ -1074) (h : m.Holds v) (hv : v < 2 ^ (52 + m.exponent)) :
    m.mantissa = 2 ^ 52 ∧ (2 : ℚ) ^ (51 + m.exponent) < v := by
  have hE : (0 : ℚ) < 2 ^ m.exponent := zpow_pos two_pos _
  have hnormal : 2 ^ 52 ≤ m.mantissa := hm.normal.resolve_right hne
  have hpower : m.mantissa = 2 ^ 52 := by
    obtain ⟨_, hgap⟩ := m.gapBelow_mem
    rw [zpow_add₀ two_ne_zero] at hv
    have hsmall := lt_of_mul_lt_mul_right (h.low.trans_lt hv) hE.le
    have hcast : ((2 ^ 52 + 1 : Nat) : ℚ) = 2 ^ (52 : Int) + 1 := by norm_num
    have hsmall' : (m.mantissa : ℚ) < (2 ^ 52 + 1 : Nat) := by
      rw [hcast]
      linarith
    have := Nat.cast_lt.1 hsmall'
    omega
  have hgap : m.gapBelow = 1 / 4 := if_pos ⟨hpower, hne⟩
  refine ⟨hpower, lt_of_lt_of_le ?_ h.low⟩
  rw [hgap, hpower, zpow_add₀ two_ne_zero]
  refine mul_lt_mul_of_pos_right ?_ hE
  norm_num

section Rounding

/-- The first shift of a quotient. -/
theorem shiftToTargetExponent_quotient (a : Nat) {b : Nat} (hb : 0 < b) (e : Int) :
    ∃ k : Nat, (max (totalExponent (a / b) e - 53) (-1074) - e).toNat = k ∧
      shiftToTargetExponent .binary64 (a / b) e (accuracyOfFraction (a % b) b) =
        (quotientMantissa a (b * 2 ^ k), e + k) := by
  refine ⟨_, rfl, ?_⟩
  rw [shiftToTargetExponent, targetExponent_eq, shiftToExponent,
    ofMantissaAndAccuracy_quotient a hb, shiftRight_quotientMantissa a hb]

variable {m : Magnitude} {a b : Nat} {e : Int}

/-- Where the first shift ends is the exponent of the magnitude, or one below it just under a power
of two. -/
theorem Magnitude.Holds.exponent (hm : m.IsCanonical) (hb : 0 < b)
    (h : m.Holds (a / b * 2 ^ e)) (hbits : 52 ≤ (a / b).log2 ∨ e ≤ -1074) :
    max (totalExponent (a / b) e - 53) (-1074) = m.exponent ∨
      (m.mantissa = 2 ^ 52 ∧ m.exponent ≠ -1074 ∧
        max (totalExponent (a / b) e - 53) (-1074) = m.exponent - 1 ∧
          (a : ℚ) / b * 2 ^ e < 2 ^ 53 * 2 ^ (m.exponent - 1)) := by
  have hleast := hm.least
  have htotal : totalExponent (a / b) e = (a / b).log2 + 1 + e := rfl
  have hupper : (a : ℚ) / b * 2 ^ e < 2 ^ totalExponent (a / b) e := quotient_lt_two_zpow hb e
  -- the shift does not end above the exponent of the magnitude
  have hle : totalExponent (a / b) e - 53 ≤ m.exponent := by
    by_cases hq : a / b = 0
    · have hlog : (a / b).log2 = 0 := by rw [hq, Nat.log2_zero]
      omega
    · have hlt := (two_zpow_le_quotient hb e hq).trans_lt (h.lt_two_zpow hm)
      have := (zpow_lt_zpow_iff_right₀ one_lt_two).1 hlt
      omega
  by_cases hlt : totalExponent (a / b) e - 53 < m.exponent ∧ m.exponent ≠ -1074
  · right
    obtain ⟨hlt, hne⟩ := hlt
    have hbelow : (a : ℚ) / b * 2 ^ e < 2 ^ (52 + m.exponent) :=
      hupper.trans_le (zpow_le_zpow_right₀ one_le_two (by omega))
    obtain ⟨hpower, hhigh⟩ := h.of_lt_two_zpow hm hne hbelow
    have := (zpow_lt_zpow_iff_right₀ one_lt_two).1 (hhigh.trans hupper)
    refine ⟨hpower, hne, by omega, ?_⟩
    rw [zpow_add₀ two_ne_zero, two_zpow_eq_two_mul m.exponent] at hbelow
    norm_num at hbelow ⊢
    linarith
  · left
    omega

/-- In the steps of the magnitude whose cell a quotient lies in, the quotient is rounded to the
mantissa. -/
theorem Magnitude.Holds.roundedMantissa (hb : 0 < b) (h : m.Holds (a / b * 2 ^ m.exponent)) :
    (quotientMantissa a b).roundedMantissa = m.mantissa := by
  obtain ⟨hlow, hhigh, hends⟩ := h
  obtain ⟨_, hgap⟩ := m.gapBelow_mem
  have hlow' : ((m.mantissa : ℚ) - 1 / 2) * 2 ^ m.exponent ≤
      (m.mantissa - m.gapBelow) * 2 ^ m.exponent :=
    mul_le_mul_of_nonneg_right (by linarith) (zpow_pos two_pos _).le
  refine roundedMantissa_quotientMantissa hb ((le_quotient_iff hb _ _).1 (hlow'.trans hlow))
    ((quotient_le_iff hb _ _).1 hhigh) ?_
  refine hends.imp_right fun hends => ⟨fun htie => ?_, fun htie => ?_⟩
  · have heq := eq_quotient_of hb m.exponent _ htie
    exact hends.1 (le_antisymm hlow (heq ▸ hlow'))
  · exact hends.2 (quotient_eq_of hb _ _ htie)

/-- Just under a power of two the mantissa overflows. -/
theorem roundedMantissa_of_carry (hb : 0 < b) (e : Int)
    (hlow : (2 ^ 53 - 1 / 2) * 2 ^ e ≤ (a : ℚ) / b * 2 ^ e)
    (hhigh : (a : ℚ) / b * 2 ^ e < 2 ^ 53 * 2 ^ e) :
    (quotientMantissa a b).roundedMantissa = 2 ^ 53 := by
  have hE : (0 : ℚ) < 2 ^ e := zpow_pos two_pos _
  refine roundedMantissa_quotientMantissa hb ((le_quotient_iff hb e _).1 ?_)
    ((quotient_le_iff hb e _).1 ?_) (.inl (by decide))
  · push_cast
    exact hlow
  · push_cast
    linarith

/-- Below a power of two the steps are half as wide as above it. -/
theorem Magnitude.Holds.roundedMantissa_of_lt (hb : 0 < b) (hpower : m.mantissa = 2 ^ 52)
    (hne : m.exponent ≠ -1074) (h : m.Holds (a / b * 2 ^ (m.exponent - 1)))
    (hbelow : (a : ℚ) / b * 2 ^ (m.exponent - 1) < 2 ^ 53 * 2 ^ (m.exponent - 1)) :
    (quotientMantissa a b).roundedMantissa = 2 ^ 53 := by
  refine roundedMantissa_of_carry hb _ ?_ hbelow
  have hlow := h.low
  have hgap : m.gapBelow = 1 / 4 := if_pos ⟨hpower, hne⟩
  rw [hgap, hpower, two_zpow_eq_two_mul m.exponent] at hlow
  push_cast at hlow
  linarith

/-- What lies in the cell of a magnitude is rounded to it. -/
theorem Magnitude.Holds.roundWithAccuracy (hm : m.IsCanonical) (hb : 0 < b)
    (h : m.Holds (a / b * 2 ^ e)) (hbits : 52 ≤ (a / b).log2 ∨ e ≤ -1074) (s : Sign) :
    roundWithAccuracy .binary64 s (a / b) e (accuracyOfFraction (a % b) b) =
      .finite s m.mantissa m.exponent hm.pos := by
  have hleast := hm.least
  have htotal : totalExponent (a / b) e = (a / b).log2 + 1 + e := rfl
  have hexponent := h.exponent hm hb hbits
  obtain ⟨k, hk, hfirst⟩ := shiftToTargetExponent_quotient a hb e
  have hshift : e + k = max (totalExponent (a / b) e - 53) (-1074) := by omega
  have hB : 0 < b * 2 ^ k := Nat.mul_pos hb (Nat.two_pow_pos k)
  rw [quotient_scaled hb e k] at h hexponent
  rw [← hshift] at hexponent
  unfold UnpackedFloat.roundWithAccuracy
  rw [hfirst]
  dsimp only
  rcases hexponent with heq | ⟨hpower, hne, heq, hbelow⟩
  · rw [heq] at h ⊢
    rw [h.roundedMantissa hB, shiftToTargetExponent_of_lt hm.bits hleast]
    exact dif_neg (Nat.ne_of_gt hm.pos)
  · rw [heq] at h hbelow
    have hnext : e + k + 1 = m.exponent := by omega
    rw [h.roundedMantissa_of_lt hB hpower hne hbelow, shiftToTargetExponent_two_pow (by omega)]
    obtain ⟨mantissa, exponent⟩ := m
    subst hpower hnext
    exact dif_neg (Nat.ne_of_gt (Nat.two_pow_pos 52))

end Rounding

/-! ### Every number has a cell -/

section Cells

variable {m n : Magnitude} {v : ℚ}

/-- A number that is not negative has a nearest natural number; of two at a distance of one half the
even one counts. -/
theorem exists_nearest (hv : 0 ≤ v) : ∃ n : Nat, (n : ℚ) - 1 / 2 ≤ v ∧ v ≤ n + 1 / 2 ∧
    (n % 2 = 0 ∨ (n : ℚ) - 1 / 2 ≠ v ∧ v ≠ n + 1 / 2) := by
  have hfloor := Nat.floor_le hv
  have hceil := Nat.lt_floor_add_one v
  generalize ⌊v⌋₊ = k at hfloor hceil
  rcases lt_trichotomy v (k + 1 / 2) with hlt | heq | hgt
  · exact ⟨k, by linarith, hlt.le, .inr ⟨by linarith, hlt.ne⟩⟩
  · -- halfway between two numbers one of them is even
    rcases Nat.mod_two_eq_zero_or_one k with hk | hk
    · exact ⟨k, by linarith, heq.le, .inl hk⟩
    · refine ⟨k + 1, ?_, ?_, .inl (by omega)⟩ <;> push_cast <;> linarith
  · refine ⟨k + 1, ?_, ?_, .inr ⟨?_, ?_⟩⟩ <;> push_cast <;> linarith

/-- Half a step above the greatest magnitude. -/
def overflowBound : ℚ :=
  (2 ^ 53 - 1 / 2) * 2 ^ 971

theorem overflowBound_lt : overflowBound < 2 ^ (1024 : Int) := by
  have htwo : (2 : ℚ) ^ (1024 : Int) = 2 ^ 53 * 2 ^ 971 := by
    rw [← pow_add]
    rfl
  rw [htwo]
  exact mul_lt_mul_of_pos_right (by linarith) (pow_pos two_pos _)

theorem one_lt_overflowBound : 1 < overflowBound :=
  one_lt_mul_of_lt_of_le (by norm_num) (one_le_pow₀ one_le_two)

/-- A multiple of the step that is nearest to a number is the magnitude in whose cell the number
lies; the cell of a power of two with narrower steps below it is met only from above. -/
theorem Magnitude.holds_of_nearest {x : ℚ} (hx : x * 2 ^ m.exponent = v)
    (hlow : (m.mantissa : ℚ) - 1 / 2 ≤ x) (hhigh : x ≤ m.mantissa + 1 / 2)
    (hends : m.mantissa % 2 = 0 ∨ (m.mantissa : ℚ) - 1 / 2 ≠ x ∧ x ≠ m.mantissa + 1 / 2)
    (hpower : m.exponent ≠ -1074 → 2 ^ 52 ≤ x) : m.Holds v := by
  have hE : (0 : ℚ) < 2 ^ m.exponent := zpow_pos two_pos _
  subst hx
  have hhigh' : x * 2 ^ m.exponent ≤ (m.mantissa + 1 / 2) * 2 ^ m.exponent :=
    mul_le_mul_of_nonneg_right hhigh hE.le
  by_cases hgap : m.mantissa = 2 ^ 52 ∧ m.exponent ≠ -1074
  · have hpow := hpower hgap.2
    refine ⟨mul_le_mul_of_nonneg_right ?_ hE.le, hhigh', .inl (by omega)⟩
    rw [gapBelow, if_pos hgap, hgap.1]
    push_cast
    linarith
  · have hhalf : m.gapBelow = 1 / 2 := if_neg hgap
    refine ⟨?_, hhigh', hends.imp_right fun h => ⟨fun heq => h.1 ?_, fun heq => h.2 ?_⟩⟩
    · rw [hhalf]
      exact mul_le_mul_of_nonneg_right hlow hE.le
    · rw [hhalf] at heq
      exact mul_right_cancel₀ hE.ne' heq
    · exact mul_right_cancel₀ hE.ne' heq

/-- The width of the steps around a number, and the count of steps that the number comes to. -/
theorem exists_steps (hlow : (2 : ℚ) ^ (-1075 : Int) < v) (hhigh : v < overflowBound) :
    ∃ (e : Int) (x : ℚ), (-1074 ≤ e ∧ e ≤ 971) ∧ x * 2 ^ e = v ∧ x < 2 ^ 53 ∧
      (e ≠ -1074 → 2 ^ 52 ≤ x) ∧ (e = -1074 → 1 / 2 < x) ∧ (e = 971 → x < 2 ^ 53 - 1 / 2) := by
  have hv : 0 < v := (zpow_pos two_pos _).trans hlow
  obtain ⟨t, ht, htnext⟩ := exists_mem_Ico_zpow hv one_lt_two
  have htop : t < 1024 :=
    (zpow_lt_zpow_iff_right₀ one_lt_two).1 ((ht.trans_lt hhigh).trans overflowBound_lt)
  generalize he : max (t - 52) (-1074) = e
  have hE : (0 : ℚ) < 2 ^ e := zpow_pos two_pos _
  refine ⟨e, v / 2 ^ e, by omega, div_mul_cancel₀ v hE.ne', ?_, fun hne => ?_, ?_, ?_⟩
  · rw [div_lt_iff₀ hE, ← zpow_natCast, ← zpow_add₀ two_ne_zero]
    exact htnext.trans_le (zpow_le_zpow_right₀ one_le_two (by push_cast; omega))
  · rw [le_div_iff₀ hE, ← zpow_natCast, ← zpow_add₀ two_ne_zero]
    exact (zpow_le_zpow_right₀ one_le_two (by push_cast; omega)).trans ht
  · rintro rfl
    have hstep : (2 : ℚ) ^ (-1074 : Int) = 2 * 2 ^ (-1075 : Int) := two_zpow_eq_two_mul _
    rw [lt_div_iff₀ hE, hstep]
    linarith
  · rintro rfl
    rw [div_lt_iff₀ hE]
    exact hhigh

/-- Just under a power of two the mantissa overflows into it. -/
theorem Magnitude.holds_of_carry {e : Int} {x : ℚ} (hleast : -1074 ≤ e) (hx : x * 2 ^ e = v)
    (hlow : 2 ^ 53 - 1 / 2 ≤ x) (hhigh : x < 2 ^ 53) :
    (Magnitude.mk (2 ^ 52) (e + 1)).Holds v := by
  have hE : (0 : ℚ) < 2 ^ e := zpow_pos two_pos _
  have hstep : (2 : ℚ) ^ (e + 1) = 2 * 2 ^ e := by rw [zpow_add_one₀ two_ne_zero, mul_comm]
  have hgap : (Magnitude.mk (2 ^ 52) (e + 1)).gapBelow = 1 / 4 :=
    if_pos ⟨rfl, by dsimp only; omega⟩
  have hlow' := mul_le_mul_of_nonneg_right hlow hE.le
  have hhigh' := mul_lt_mul_of_pos_right hhigh hE
  rw [hx] at hlow' hhigh'
  have heven : 2 ^ 52 % 2 = 0 := rfl
  refine ⟨?_, ?_, .inl heven⟩ <;> dsimp only <;> rw [hstep]
  · rw [hgap]
    push_cast
    linarith
  · push_cast
    linarith

/-- What is more than half of the least magnitude and does not overflow lies in a cell. -/
theorem exists_holds (hlow : (2 : ℚ) ^ (-1075 : Int) < v) (hhigh : v < overflowBound) :
    ∃ m : Magnitude, m.IsCanonical ∧ m.Holds v := by
  obtain ⟨e, x, ⟨hleast, hgreatest⟩, hx, hsmall, hlarge, hhalf, hover⟩ := exists_steps hlow hhigh
  have hxpos : 1 / 2 < x := by
    by_cases hne : e = -1074
    · exact hhalf hne
    · linarith [hlarge hne]
  obtain ⟨k, hklow, hkhigh, hends⟩ := exists_nearest (v := x) (by linarith)
  have hkle : k ≤ 2 ^ 53 := by
    have hlt : (k : ℚ) < ((2 ^ 53 + 1 : Nat) : ℚ) := by push_cast; linarith
    exact Nat.le_of_lt_succ (Nat.cast_lt.1 hlt)
  have hkpos : 0 < k := by
    have hpos : (0 : ℚ) < k := by linarith
    exact_mod_cast hpos
  have hknormal : 2 ^ 52 ≤ k ∨ e = -1074 := by
    by_cases hne : e = -1074
    · exact .inr hne
    · have hlt : ((2 ^ 52 : Nat) : ℚ) < ((k + 1 : Nat) : ℚ) := by
        push_cast
        linarith [hlarge hne]
      exact .inl (Nat.le_of_lt_succ (Nat.cast_lt.1 hlt))
  -- the nearest whole number of steps is the mantissa, unless it is carried over
  rcases hkle.lt_or_eq with hk | rfl
  · exact ⟨⟨k, e⟩, ⟨hkpos, hk, hleast, hknormal, hgreatest⟩,
      Magnitude.holds_of_nearest hx hklow hkhigh hends hlarge⟩
  · push_cast at hklow
    have hne : e ≠ 971 := fun h => by linarith [hover h]
    exact ⟨⟨2 ^ 52, e + 1⟩, ⟨Nat.two_pow_pos 52, by dsimp only; omega, by dsimp only; omega,
      .inl le_rfl, by dsimp only; omega⟩, Magnitude.holds_of_carry hleast hx hklow hsmall⟩

/-- A number lies in one cell only. -/
theorem Magnitude.Holds.unique (hm : m.IsCanonical) (hn : n.IsCanonical) (h : m.Holds v)
    (h' : n.Holds v) : m = n := by
  obtain ⟨_, hgap⟩ := m.gapBelow_mem
  have hv : 0 ≤ v := by
    refine le_trans (mul_nonneg ?_ (zpow_pos two_pos _).le) h.low
    have hone : (1 : ℚ) ≤ m.mantissa := by exact_mod_cast hm.pos
    linarith
  -- both are what the rounding of the number comes to
  have hvalue (k : Nat) : ((v.num.toNat * 2 ^ k : Nat) : ℚ) / v.den * 2 ^ (-k : Int) = v := by
    have hnum : (v.num.toNat : ℚ) = v.num := by
      exact_mod_cast Int.toNat_of_nonneg (Rat.num_nonneg.2 hv)
    have hpow : (2 : ℚ) ^ k ≠ 0 := pow_ne_zero k two_ne_zero
    rw [zpow_neg, zpow_natCast]
    push_cast
    rw [hnum, mul_div_right_comm, Rat.num_div_den, mul_assoc, mul_inv_cancel₀ hpow, mul_one]
  rw [← hvalue 1074] at h h'
  have hround := h.roundWithAccuracy hm v.den_pos (.inr le_rfl) .positive
  rw [h'.roundWithAccuracy hn v.den_pos (.inr le_rfl) .positive] at hround
  obtain ⟨mantissa, exponent⟩ := m
  cases hround
  rfl

end Cells

/-! ### Correct rounding -/

section RoundsTo

variable {m n : Magnitude} {v : ℚ} {x : Float}

/-- The rational number that a magnitude is. -/
def Magnitude.value (m : Magnitude) : ℚ :=
  m.mantissa * 2 ^ m.exponent

/-- A magnitude reads back as itself. -/
theorem Magnitude.holds_self (m : Magnitude) : m.Holds m.value := by
  have hE : (0 : ℚ) < 2 ^ m.exponent := zpow_pos two_pos _
  obtain ⟨hpos, _⟩ := m.gapBelow_mem
  have hlow : (m.mantissa - m.gapBelow) * 2 ^ m.exponent < m.mantissa * 2 ^ m.exponent :=
    mul_lt_mul_of_pos_right (by linarith) hE
  have hhigh : (m.mantissa : ℚ) * 2 ^ m.exponent < (m.mantissa + 1 / 2) * 2 ^ m.exponent :=
    mul_lt_mul_of_pos_right (by linarith) hE
  exact ⟨hlow.le, hhigh.le, .inr ⟨hlow.ne, hhigh.ne⟩⟩

/-- The number that is stored for a finite magnitude. -/
def Magnitude.stored (m : Magnitude) (hm : m.IsCanonical) : Float :=
  .ofModel (.pack (.finite .positive m.mantissa m.exponent hm.pos))

theorem Magnitude.unpack_stored (hm : m.IsCanonical) :
    (m.stored hm).toModel.unpack = .finite .positive m.mantissa m.exponent hm.pos :=
  unpack_pack ⟨hm.bits, hm.least, hm.normal, by have := hm.greatest; omega⟩

theorem Magnitude.isFinite_stored (hm : m.IsCanonical) : (m.stored hm).isFinite = true := by
  show (m.stored hm).toModel.unpack.isFinite = true
  rw [m.unpack_stored hm]
  rfl

/-- The magnitude of a finite number other than zero. -/
theorem isCanonical_of_unpack {x : Float} {s : Sign} {m : Nat} {e : Int} {hm : 0 < m}
    (h : x.toModel.unpack = .finite s m e hm) : (Magnitude.mk m e).IsCanonical := by
  have hbelow : FitsBelow 1024 x.toModel.unpack := by
    refine isFinite_iff_below.1 ?_
    show x.toModel.unpack.isFinite = true
    rw [h]
    rfl
  rw [h] at hbelow
  obtain ⟨hbits, hleast, hnormal, hbound⟩ := hbelow
  exact ⟨hm, hbits, hleast, hnormal, by dsimp only; omega⟩

/-- What a number that is not negative is rounded to: the magnitude in whose cell it lies, zero
below the least cell and infinity above the greatest one. -/
inductive RoundsTo (v : ℚ) : Float → Prop where
  | zero : v ≤ 2 ^ (-1075 : Int) → RoundsTo v 0
  | stored {m : Magnitude} (hm : m.IsCanonical) : m.Holds v → RoundsTo v (m.stored hm)
  | infinite : overflowBound ≤ v → RoundsTo v infinity

theorem two_zpow_least : (2 : ℚ) ^ (-1075 : Int) = 1 / 2 * 2 ^ (-1074 : Int) := by
  have hstep : (2 : ℚ) ^ (-1074 : Int) = 2 * 2 ^ (-1075 : Int) := two_zpow_eq_two_mul (-1074)
  rw [hstep]
  ring

/-- No cell reaches down to half of the least magnitude. -/
theorem Magnitude.Holds.pos (hm : m.IsCanonical) (h : m.Holds v) : 2 ^ (-1075 : Int) < v := by
  have hstep : (2 : ℚ) ^ (-1074 : Int) ≤ 2 ^ m.exponent :=
    zpow_le_zpow_right₀ one_le_two hm.least
  have hpos : (0 : ℚ) < 2 ^ (-1074 : Int) := zpow_pos two_pos _
  have hlow := h.low
  rw [two_zpow_least]
  rcases (Nat.succ_le_of_lt hm.pos).lt_or_eq with hlt | hone
  · obtain ⟨_, hgap⟩ := m.gapBelow_mem
    have hmantissa : (2 : ℚ) ≤ m.mantissa := by exact_mod_cast hlt
    have hfactor : (3 / 2 : ℚ) * 2 ^ m.exponent ≤ (m.mantissa - m.gapBelow) * 2 ^ m.exponent :=
      mul_le_mul_of_nonneg_right (by linarith) (hpos.le.trans hstep)
    linarith
  · -- the cell of an odd mantissa is open
    have hmantissa : m.mantissa = 1 := hone.symm
    have hgap : m.gapBelow = 1 / 2 := if_neg fun h => by omega
    have hends := h.ends.resolve_left (by omega)
    rw [hgap, hmantissa, Nat.cast_one] at hlow hends
    refine lt_of_le_of_lt ?_ (lt_of_le_of_ne hlow hends.1)
    linarith

/-- No cell reaches up to where numbers overflow. -/
theorem Magnitude.Holds.lt_overflowBound (hm : m.IsCanonical) (h : m.Holds v) :
    v < overflowBound := by
  have hmantissa : (m.mantissa : ℚ) ≤ 2 ^ 53 - 1 := by
    have hle : m.mantissa + 1 ≤ 2 ^ 53 := hm.bits
    have hle' : ((m.mantissa + 1 : Nat) : ℚ) ≤ (2 ^ 53 : Nat) := by exact_mod_cast hle
    push_cast at hle'
    linarith
  have htop : (2 : ℚ) ^ m.exponent ≤ 2 ^ 971 := by
    rw [← zpow_natCast]
    exact zpow_le_zpow_right₀ one_le_two hm.greatest
  have hpos : (0 : ℚ) < 2 ^ m.exponent := zpow_pos two_pos _
  have hbound : (m.mantissa + 1 / 2) * 2 ^ m.exponent ≤ overflowBound := by
    unfold overflowBound
    refine mul_le_mul (by linarith) htop hpos.le ?_
    linarith [pow_pos (two_pos (α := ℚ)) 53]
  refine lt_of_le_of_ne (h.high.trans hbound) ?_
  rintro rfl
  -- an even mantissa is less than the greatest one
  have heq := le_antisymm h.high hbound
  have heven := h.ends.resolve_right fun hends => hends.2 heq
  have hlt : (m.mantissa : ℚ) + 1 / 2 < 2 ^ 53 - 1 / 2 := by
    have hne : m.mantissa + 2 ≤ 2 ^ 53 := by
      have := hm.bits
      omega
    have hle' : ((m.mantissa + 2 : Nat) : ℚ) ≤ (2 ^ 53 : Nat) := by exact_mod_cast hne
    push_cast at hle'
    linarith
  have hless := mul_lt_mul_of_lt_of_le_of_pos_of_nonneg hlt htop hpos
    (by linarith [pow_pos (two_pos (α := ℚ)) 53])
  rw [← heq] at hless
  exact absurd hless (lt_irrefl _)

/-- What lies in the cell of a magnitude is rounded to it. -/
theorem RoundsTo.eq_stored (h : RoundsTo v x) (hm : m.IsCanonical) (hv : m.Holds v) :
    x = m.stored hm := by
  cases h with
  | zero hlow => exact absurd (hv.pos hm) (not_lt.2 hlow)
  | stored hn hv' =>
    obtain rfl := hv.unique hm hn hv'
    rfl
  | infinite hhigh => exact absurd (hv.lt_overflowBound hm) (not_lt.2 hhigh)

theorem two_zpow_lt_overflowBound : (2 : ℚ) ^ (-1075 : Int) < overflowBound :=
  (zpow_le_one_of_nonpos₀ one_le_two (by decide)).trans_lt one_lt_overflowBound

/-- A number is rounded in one way only. -/
theorem RoundsTo.unique {y : Float} (hx : RoundsTo v x) (hy : RoundsTo v y) : x = y := by
  cases hy with
  | stored hm hv => exact hx.eq_stored hm hv
  | zero hlow =>
    cases hx with
    | zero => rfl
    | stored hm hv => exact absurd (hv.pos hm) (not_lt.2 hlow)
    | infinite hhigh => exact absurd (hhigh.trans hlow) (not_le.2 two_zpow_lt_overflowBound)
  | infinite hhigh =>
    cases hx with
    | zero hlow => exact absurd (hhigh.trans hlow) (not_le.2 two_zpow_lt_overflowBound)
    | stored hm hv => exact absurd (hv.lt_overflowBound hm) (not_lt.2 hhigh)
    | infinite => rfl

/-- A rounded number is finite exactly if the exact one does not overflow. -/
theorem RoundsTo.isFinite_iff (h : RoundsTo v x) : x.isFinite = true ↔ v < overflowBound := by
  cases h with
  | zero hlow => exact iff_of_true rfl (hlow.trans_lt two_zpow_lt_overflowBound)
  | stored hm hv => exact iff_of_true (Magnitude.isFinite_stored hm) (hv.lt_overflowBound hm)
  | infinite hhigh => exact iff_of_false Bool.false_ne_true (not_lt.2 hhigh)

end RoundsTo

section Rounded

variable {a b : Nat} {e : Int}

/-- At most half of the least magnitude is rounded to zero. -/
theorem roundWithAccuracy_of_le (hb : 0 < b) (hbits : 52 ≤ (a / b).log2 ∨ e ≤ -1074)
    (h : (a : ℚ) / b * 2 ^ e ≤ 2 ^ (-1075 : Int)) (s : Sign) :
    roundWithAccuracy .binary64 s (a / b) e (accuracyOfFraction (a % b) b) = .zero s := by
  have htotal : totalExponent (a / b) e = (a / b).log2 + 1 + e := rfl
  have hleast : max (totalExponent (a / b) e - 53) (-1074) = -1074 ∧ e ≤ -1074 := by
    by_cases hq : a / b = 0
    · have hlog : (a / b).log2 = 0 := by rw [hq, Nat.log2_zero]
      omega
    · have hle := (two_zpow_le_quotient hb e hq).trans h
      have := (zpow_le_zpow_iff_right₀ one_lt_two).1 hle
      omega
  obtain ⟨k, hk, hfirst⟩ := shiftToTargetExponent_quotient a hb e
  have hexponent : e + k = -1074 := by omega
  have hB : 0 < b * 2 ^ k := Nat.mul_pos hb (Nat.two_pow_pos k)
  rw [quotient_scaled hb e k, hexponent, two_zpow_least] at h
  -- on the scale of the least magnitude the quotient is at most one half
  have hhalf : 2 * a ≤ 2 * (0 * (b * 2 ^ k)) + b * 2 ^ k := by
    refine (quotient_le_iff hB (-1074) 0).1 ?_
    rw [Nat.cast_zero, zero_add]
    exact h
  have hrounded : (quotientMantissa a (b * 2 ^ k)).roundedMantissa = 0 :=
    roundedMantissa_quotientMantissa hB (by omega) hhalf (.inl rfl)
  unfold roundWithAccuracy
  rw [hfirst]
  dsimp only
  rw [hrounded, hexponent, shiftToTargetExponent_of_lt (by decide) le_rfl]
  exact dif_pos rfl

theorem le_totalExponent_of_overflow (hb : 0 < b) (h : overflowBound ≤ (a : ℚ) / b * 2 ^ e) :
    1024 ≤ totalExponent (a / b) e := by
  have hlt : (2 : ℚ) ^ (1023 : Int) < 2 ^ totalExponent (a / b) e := by
    refine lt_of_lt_of_le ?_ (h.trans (quotient_lt_two_zpow hb e).le)
    have hsplit : (2 : ℚ) ^ (1023 : Int) = 2 ^ 52 * 2 ^ 971 := by
      rw [← pow_add]
      rfl
    rw [hsplit]
    exact mul_lt_mul_of_pos_right (by norm_num) (pow_pos two_pos _)
  have := (zpow_lt_zpow_iff_right₀ one_lt_two).1 hlt
  omega

/-- What overflows is rounded to an exponent that is too large for a finite number. -/
theorem roundWithAccuracy_of_overflow (hb : 0 < b) (hbits : 52 ≤ (a / b).log2 ∨ e ≤ -1074)
    (h : overflowBound ≤ (a : ℚ) / b * 2 ^ e) (s : Sign) :
    ∃ M E, ∃ hM : 0 < M, 972 ≤ E ∧
      roundWithAccuracy .binary64 s (a / b) e (accuracyOfFraction (a % b) b) =
        .finite s M E hM := by
  have htotal : totalExponent (a / b) e = (a / b).log2 + 1 + e := rfl
  have hlarge := le_totalExponent_of_overflow hb h
  have hupper := quotient_lt_two_zpow (a := a) hb e
  obtain ⟨hle, hexponent, hnormal⟩ := first_shift hbits (accuracyOfFraction (a % b) b)
  obtain ⟨k, hk, hfirst⟩ := shiftToTargetExponent_quotient a hb e
  rw [hfirst] at hle hexponent hnormal
  dsimp only at hle hexponent hnormal
  have hB : 0 < b * 2 ^ k := Nat.mul_pos hb (Nat.two_pow_pos k)
  rw [quotient_scaled hb e k] at h hupper
  unfold roundWithAccuracy
  rw [hfirst]
  dsimp only
  by_cases hsmall : (quotientMantissa a (b * 2 ^ k)).roundedMantissa < 2 ^ 53
  · rw [shiftToTargetExponent_of_lt hsmall (by omega)]
    have hpos : 0 < (quotientMantissa a (b * 2 ^ k)).roundedMantissa := by omega
    refine ⟨_, _, hpos, ?_, dif_neg hpos.ne'⟩
    -- at the greatest exponent the mantissa would overflow
    by_contra hlt
    have htop : e + k = 971 := by omega
    have hsplit : totalExponent (a / b) e = 53 + 971 := by omega
    rw [htop] at h hupper
    rw [hsplit, zpow_add₀ two_ne_zero] at hupper
    exact hsmall.ne (roundedMantissa_of_carry hB 971 h hupper)
  · have hfull : (quotientMantissa a (b * 2 ^ k)).roundedMantissa = 2 ^ 53 := by omega
    rw [hfull, shiftToTargetExponent_two_pow (by omega)]
    exact ⟨2 ^ 52, e + k + 1, Nat.two_pow_pos 52, by omega, dif_neg (Nat.two_pow_pos 52).ne'⟩

/-- A mantissa with a larger exponent than that of a finite number is stored as infinity. -/
theorem ofModel_pack_of_overflow {M : Nat} {E : Int} (hM : 0 < M) (hE : 972 ≤ E) :
    Float.ofModel (.pack (.finite .positive M E hM)) = infinity := by
  have hpack : UnpackedFloat.pack .binary64 (.finite .positive M E hM) =
      UnpackedFloat.pack .binary64 (.infinity .positive) := by
    have hfits : 2 ^ 11 ≤ (E + (1023 : Nat) + (52 : Nat)).toNat + 1 := by omega
    exact if_pos hfits
  show Float.ofModel _ = Float.ofModel (.pack (.infinity .positive))
  simp only [Float.Model.pack, hpack]

/-- The rounding of a quotient with enough bits is correct. -/
theorem roundsTo_quotient (hb : 0 < b) (hbits : 52 ≤ (a / b).log2 ∨ e ≤ -1074) :
    RoundsTo (a / b * 2 ^ e) (.ofModel (.pack
      (roundWithAccuracy .binary64 .positive (a / b) e (accuracyOfFraction (a % b) b)))) := by
  by_cases hlow : (a : ℚ) / b * 2 ^ e ≤ 2 ^ (-1075 : Int)
  · rw [roundWithAccuracy_of_le hb hbits hlow]
    exact .zero hlow
  by_cases hhigh : overflowBound ≤ (a : ℚ) / b * 2 ^ e
  · obtain ⟨M, E, hM, hE, hround⟩ := roundWithAccuracy_of_overflow hb hbits hhigh .positive
    rw [hround, ofModel_pack_of_overflow hM hE]
    exact .infinite hhigh
  obtain ⟨m, hm, h⟩ := exists_holds (not_le.1 hlow) (not_le.1 hhigh)
  rw [h.roundWithAccuracy hm hb hbits]
  exact .stored hm h

end Rounded

end EnergyFormula.Number
