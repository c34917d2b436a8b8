import EnergyFormula.Number.Text
import EnergyFormula.Proofs.Number.Operations
import EnergyFormula.Proofs.Number.Shortest
import EnergyFormula.Proofs.Text.Digits

/-!
# Decimals as numbers

The float of a decimal is what its exact value is rounded to, whatever the size of the coefficient
and of the exponent (`Decimal.roundsTo_toFloat`): the two bounds beyond which no power of ten is
computed lie outside of what a finite number can be.
-/

namespace EnergyFormula.Number

open Text

namespace Decimal

/-- The rational number that a decimal is. -/
def value (d : Decimal) : ℚ :=
  d.coefficient * 10 ^ d.exponent

variable {c : Nat} {e : Int}

/-- A decimal lies between two powers of ten, by the place of its leading digit. -/
theorem value_mem (hc : 0 < c) : (10 : ℚ) ^ (e + (natural c).length - 1) ≤ c * 10 ^ e ∧
    (c : ℚ) * 10 ^ e < 10 ^ (e + (natural c).length) := by
  obtain ⟨hfewer, hdigits⟩ := length_natural_mem hc
  have hlength : 0 < (natural c).length := Nat.length_toDigits_pos
  have hten : (0 : ℚ) < 10 ^ e := zpow_pos (by norm_num) e
  constructor
  · have hsplit : e + (natural c).length - 1 = ((natural c).length - 1 : Nat) + e := by omega
    rw [hsplit, zpow_add₀ (by norm_num), zpow_natCast]
    exact mul_le_mul_of_nonneg_right (by exact_mod_cast hfewer) hten.le
  · rw [add_comm, zpow_add₀ (by norm_num), zpow_natCast]
    exact mul_lt_mul_of_pos_right (by exact_mod_cast hdigits) hten

theorem overflowBound_le_ten_zpow : overflowBound ≤ 10 ^ (310 : Int) := by
  have hinverse : (10 : ℚ) ^ (-310 : Int) ≤ 2 ^ (-1024 : Int) :=
    ten_zpow_le_two_zpow (.inr (by decide))
  rw [zpow_neg, zpow_neg, inv_le_inv₀ (zpow_pos (by norm_num) _) (zpow_pos two_pos _)] at hinverse
  exact overflowBound_lt.le.trans hinverse

/-- A number has no more decimal digits than binary ones. -/
theorem length_natural_le (hc : 0 < c) : (natural c).length ≤ c.log2 + 1 := by
  have hlength : 0 < (natural c).length := Nat.length_toDigits_pos
  have hpow : 2 ^ ((natural c).length - 1) ≤ c :=
    (Nat.pow_le_pow_left (by decide) _).trans (length_natural_mem hc).1
  have := (Nat.le_log2 hc.ne').2 hpow
  omega

/-- The float of a decimal is what the decimal is rounded to. -/
theorem roundsTo_toFloat (d : Decimal) : RoundsTo d.value d.toFloat := by
  obtain ⟨c, e⟩ := d
  unfold toFloat value
  dsimp only
  by_cases hzero : c = 0
  · rw [if_pos hzero, hzero, Nat.cast_zero, zero_mul]
    exact .zero (zpow_pos two_pos _).le
  have hc : 0 < c := Nat.pos_of_ne_zero hzero
  obtain ⟨hlow, hhigh⟩ := value_mem (e := e) hc
  rw [if_neg hzero]
  -- what is far too large or too small is not calculated
  by_cases hlarge : 310 < e + (natural c).length
  · rw [if_pos hlarge]
    have hten : (10 : ℚ) ^ (310 : Int) ≤ 10 ^ (e + (natural c).length - 1) :=
      zpow_le_zpow_right₀ (by norm_num) (by omega)
    exact .infinite (overflowBound_le_ten_zpow.trans (hten.trans hlow))
  rw [if_neg hlarge]
  by_cases hsmall : e + (natural c).length < -340
  · rw [if_pos hsmall]
    have hten : (10 : ℚ) ^ (e + (natural c).length) ≤ 10 ^ (-340 : Int) :=
      zpow_le_zpow_right₀ (by norm_num) hsmall.le
    exact .zero (hhigh.le.trans (hten.trans (ten_zpow_le_two_zpow (.inr (by decide)))))
  rw [if_neg hsmall]
  rcases lt_or_ge e 0 with he | he
  · have hdigits := length_natural_le hc
    have hvalue : (c : ℚ) * 10 ^ e = c / 10 ^ e.natAbs := by
      have hexponent : e = -(e.natAbs : Int) := by omega
      conv_lhs => rw [hexponent, zpow_neg, zpow_natCast]
      rfl
    rw [decide_eq_true he, hvalue]
    exact roundsTo_ofScientific_true hc (by omega) (by omega)
  · have hvalue : (c : ℚ) * 10 ^ e = c * 10 ^ e.natAbs := by
      have hexponent : e = (e.natAbs : Int) := by omega
      conv_lhs => rw [hexponent, zpow_natCast]
    rw [decide_eq_false (not_lt.2 he), hvalue]
    exact roundsTo_ofScientific_false hc (by omega)

end Decimal

end EnergyFormula.Number
