import EnergyFormula.Number.Rounding
import EnergyFormula.Proofs.Number.Error
import EnergyFormula.Proofs.Number.Rounding

/-!
# Rounding to as many places as there are

A number that is rounded to the decimal places that it has, or to more, keeps its decimal; but the
float is put together again from the whole part and the fraction of it, with an error at each of
the steps (`near_product`).  Up to fifteen digits and twenty-two places the errors are less than
one half of the last place, and the number is found again (`roundsTo_toFloat_of_few_digits`); in
any case the result lies within one part in `2^48` of the number (`roundHalfAway_of_places_le`).
-/

namespace EnergyFormula.Number

open Text Float.Model UnpackedFloat

/-! ### Rounding to a whole number -/

section Whole

variable {m : Magnitude} {c : Nat}

theorem zero_add_stored (hm : m.IsCanonical) : 0 + m.stored hm = m.stored hm := by
  show Float.ofModel (.pack (UnpackedFloat.add .binary64 _ (m.stored hm).toModel.unpack)) = _
  rw [m.unpack_stored hm]
  rfl

theorem stored_beq_zero (hm : m.IsCanonical) : (m.stored hm == 0) = false := by
  show UnpackedFloat.beq (m.stored hm).toModel.unpack _ = false
  rw [m.unpack_stored hm]
  rfl

theorem roundToWhole_stored (hm : m.IsCanonical) :
    roundToWhole (m.stored hm) = Float.ofNat m.rounded := by
  have hmagnitude := magnitude?_withSign_stored hm false
  have hsign := isNegative_withSign_stored hm false
  rw [withSign, if_neg Bool.false_ne_true] at hmagnitude hsign
  rw [roundToWhole, hmagnitude, hsign]
  rfl

/-- The nearest natural number is at most one half away. -/
theorem Magnitude.abs_rounded_sub_le (m : Magnitude) : |(m.rounded : ℚ) - m.value| ≤ 1 / 2 := by
  have hden : 0 < m.denominator := Nat.two_pow_pos _
  have hden' : (0 : ℚ) < m.denominator := Nat.cast_pos.2 hden
  have hvalue : m.value * m.denominator = m.numerator := by
    have hpow : (2 : ℚ) ^ (-m.exponent).toNat ≠ 0 := pow_ne_zero _ two_ne_zero
    show (m.mantissa : ℚ) * 2 ^ m.exponent * (2 ^ (-m.exponent).toNat : Nat) =
      (m.mantissa * 2 ^ m.exponent.toNat : Nat)
    rw [zpow_eq_div two_ne_zero]
    push_cast
    rw [mul_assoc, div_mul_cancel₀ _ hpow]
  obtain ⟨hlow, hhigh⟩ := roundedQuotient_near m.numerator m.denominator hden
  have hlow' : 2 * (m.numerator : ℚ) ≤ 2 * m.denominator * m.rounded + m.denominator := by
    exact_mod_cast hlow
  have hhigh' : 2 * (m.denominator : ℚ) * m.rounded ≤ 2 * m.numerator + m.denominator := by
    exact_mod_cast hhigh
  rw [← hvalue] at hlow' hhigh'
  have habove : m.value ≤ m.rounded + 1 / 2 := le_of_mul_le_mul_right (by linarith) hden'
  have hbelow : m.rounded ≤ m.value + 1 / 2 := le_of_mul_le_mul_right (by linarith) hden'
  rw [abs_le]
  constructor <;> linarith

/-- A natural number less than one half away is the nearest one. -/
theorem Magnitude.rounded_eq (h : |m.value - c| < 1 / 2) : m.rounded = c := by
  have hrounded := abs_le.1 m.abs_rounded_sub_le
  obtain ⟨hlow, hhigh⟩ := abs_lt.1 h
  have hbelow : (m.rounded : ℚ) < (c + 1 : Nat) := by push_cast; linarith
  have habove : (c : ℚ) < (m.rounded + 1 : Nat) := by push_cast; linarith
  have := Nat.cast_lt.1 hbelow
  have := Nat.cast_lt.1 habove
  omega

/-- The nearest natural number is at most twice as far from another one as the number itself. -/
theorem Magnitude.abs_rounded_sub_natCast_le (m : Magnitude) (c : Nat) :
    |(m.rounded : ℚ) - c| ≤ 2 * |m.value - c| := by
  by_cases h : |m.value - c| < 1 / 2
  · rw [rounded_eq h, sub_self, abs_zero]
    positivity
  · have hsplit := abs_sub_le (m.rounded : ℚ) m.value c
    have := m.abs_rounded_sub_le
    linarith

end Whole

/-! ### Powers of ten -/

/-- The number is a positive one that the natural number is rounded to, or a neighbour of it. -/
def IsNearNatural (n : Nat) : UnpackedFloat → Prop
  | .finite .positive m e _ =>
    n * 2 ^ (-e).toNat * (2 ^ 53 - 1) ≤ m * 2 ^ e.toNat * 2 ^ 53 ∧
      m * 2 ^ e.toNat * (2 ^ 53 - 1) ≤ n * 2 ^ (-e).toNat * 2 ^ 53
  | _ => False

instance (n : Nat) (u : UnpackedFloat) : Decidable (IsNearNatural n u) :=
  match u with
  | .finite .positive m e _ =>
    inferInstanceAs (Decidable (n * 2 ^ (-e).toNat * (2 ^ 53 - 1) ≤ m * 2 ^ e.toNat * 2 ^ 53 ∧
      m * 2 ^ e.toNat * (2 ^ 53 - 1) ≤ n * 2 ^ (-e).toNat * 2 ^ 53))
  | .finite .negative _ _ _ => .isFalse id
  | .zero _ => .isFalse id
  | .infinity _ => .isFalse id
  | .notANumber => .isFalse id

/-- The powers by squaring and the conversions are exact up to `10^22`. -/
theorem isNatural_powers : ∀ k ≤ 22,
    IsNatural (10 ^ k) (powerBySquaring k 1 10).toModel.unpack ∧
      IsNatural (10 ^ k) (Float.ofNat (10 ^ k)).toModel.unpack := by
  decide +kernel

/-- Up to `10^28` the powers by squaring are as good as one rounding. -/
theorem isNearNatural_power : ∀ k ≤ Scaled.maxPlaces,
    IsNearNatural (10 ^ k) (powerBySquaring k 1 10).toModel.unpack := by
  decide +kernel

section Powers

variable {n k : Nat} {x : Float}

theorem near_of_isNatural (h : IsNatural n x.toModel.unpack) : Near 0 n x := by
  obtain ⟨m, hm, rfl, hvalue⟩ := exists_stored_of_isNatural h
  exact ⟨m, hm, rfl, hvalue ▸ .refl _⟩

theorem near_of_isNearNatural (h : IsNearNatural n x.toModel.unpack) : Near 1 n x := by
  cases hu : x.toModel.unpack with
  | zero s => rw [hu] at h; exact h.elim
  | infinity s => rw [hu] at h; exact h.elim
  | notANumber => rw [hu] at h; exact h.elim
  | finite s m e hm =>
    rw [hu] at h
    cases s with
    | negative => exact h.elim
    | positive =>
      obtain ⟨hlow, hhigh⟩ := h
      refine ⟨⟨m, e⟩, isCanonical_of_unpack hu, eq_stored_of_unpack hu, ?_⟩
      have hpow : (0 : ℚ) < 2 ^ (-e).toNat := by positivity
      have hvalue : (m : ℚ) * 2 ^ e = m * 2 ^ e.toNat / 2 ^ (-e).toNat := by
        rw [zpow_eq_div two_ne_zero, mul_div_assoc]
      have hsub : 1 - roundoff = (2 ^ 53 - 1 : Nat) / 2 ^ 53 := by norm_num [roundoff]
      -- the two bounds hold of whole numbers, with the exponent on either side
      have hlow' : (n : ℚ) * 2 ^ (-e).toNat * (2 ^ 53 - 1 : Nat) ≤ m * 2 ^ e.toNat * 2 ^ 53 := by
        exact_mod_cast hlow
      have hhigh' : (m : ℚ) * 2 ^ e.toNat * (2 ^ 53 - 1 : Nat) ≤ n * 2 ^ (-e).toNat * 2 ^ 53 := by
        exact_mod_cast hhigh
      show Within 1 n ((m : ℚ) * 2 ^ e)
      rw [hvalue]
      constructor
      · rw [pow_one, hsub, le_div_iff₀ hpow, ← mul_div_assoc, div_mul_eq_mul_div,
          div_le_iff₀ (by positivity)]
        linarith
      · rw [pow_one, hsub, div_mul_div_comm, div_le_iff₀ (by positivity)]
        linarith

end Powers

/-! ### Whole part and fraction -/

section Product

variable {a b c k i : Nat} {rest unit power x : Float}

theorem isModerate_div (ha : 0 < a) (hb : 0 < b) (hale : a ≤ 2 ^ 200) (hble : b ≤ 2 ^ 200) :
    IsModerate ((a : ℚ) / b) := by
  have hb' : (0 : ℚ) < b := Nat.cast_pos.2 hb
  have hone : (1 : ℚ) ≤ a := by exact_mod_cast ha
  have hone' : (1 : ℚ) ≤ b := by exact_mod_cast hb
  have hale' : (a : ℚ) ≤ 2 ^ (200 : Int) := by exact_mod_cast hale
  have hble' : (b : ℚ) ≤ 2 ^ (200 : Int) := by exact_mod_cast hble
  constructor
  · rw [le_div_iff₀ hb']
    calc (2 : ℚ) ^ (-500 : Int) * b ≤ 2 ^ (-500 : Int) * 2 ^ (200 : Int) :=
          mul_le_mul_of_nonneg_left hble' (by positivity)
      _ = 2 ^ (-300 : Int) := (zpow_add₀ two_ne_zero _ _).symm
      _ ≤ 1 := zpow_le_one_of_nonpos₀ one_le_two (by decide)
      _ ≤ a := hone
  · rw [div_le_iff₀ hb']
    calc (a : ℚ) ≤ 2 ^ (200 : Int) := hale'
      _ ≤ 2 ^ (500 : Int) := zpow_le_zpow_right₀ one_le_two (by decide)
      _ ≤ 2 ^ (500 : Int) * b := le_mul_of_one_le_right (by positivity) hone'

theorem isModerate_natCast (ha : 0 < a) (hale : a ≤ 2 ^ 200) : IsModerate (a : ℚ) := by
  have h := isModerate_div ha one_pos hale Nat.one_le_two_pow
  rwa [Nat.cast_one, div_one] at h

theorem ten_pow_le (hk : k ≤ Scaled.maxPlaces) : 10 ^ k ≤ 2 ^ 200 :=
  (Nat.pow_le_pow_right (by decide) hk).trans (by decide)

/-- The fraction of a decimal, from its digits and the power of ten. -/
theorem near_fraction (hi : i ≤ 1) (hk : k ≤ Scaled.maxPlaces) (hpos : 0 < c % 10 ^ k)
    (hc : c ≤ 2 ^ 200) (hrest : Near i (c % 10 ^ k : Nat) rest)
    (hunit : Near i (10 ^ k : Nat) unit) :
    Near (2 * i + 1) ((c % 10 ^ k : Nat) / (10 ^ k : Nat)) (rest / unit) := by
  have hten : 0 < 10 ^ k := Nat.pow_pos (by decide)
  have hle : c % 10 ^ k ≤ 2 ^ 200 := (Nat.mod_le _ _).trans hc
  have h := hrest.div hunit (by omega) (Nat.cast_pos.2 hpos) (Nat.cast_pos.2 hten)
    (isModerate_div hpos hten hle (ten_pow_le hk))
  rwa [← two_mul] at h

/-- The whole part of a decimal and its fraction, put together; a whole part of zero is added
exactly. -/
theorem near_sum (hi : i ≤ 1) (hk : k ≤ Scaled.maxPlaces) (hpos : 0 < c) (hc : c ≤ 2 ^ 200)
    (hwhole : 0 < c / 10 ^ k → Near i (c / 10 ^ k : Nat) (Float.ofNat (c / 10 ^ k)))
    (hfraction : Near (2 * i + 1) ((c % 10 ^ k : Nat) / (10 ^ k : Nat)) x) :
    Near (2 * i + 2) (c / (10 ^ k : Nat)) (Float.ofNat (c / 10 ^ k) + x) := by
  have hten : 0 < 10 ^ k := Nat.pow_pos (by decide)
  have hten' : ((10 ^ k : Nat) : ℚ) ≠ 0 := Nat.cast_ne_zero.2 hten.ne'
  have hmoderate := isModerate_div hpos hten hc (ten_pow_le hk)
  have hsplit : ((c / 10 ^ k : Nat) : ℚ) + (c % 10 ^ k : Nat) / (10 ^ k : Nat) =
      c / (10 ^ k : Nat) := by
    have hdiv : (10 ^ k : Nat) * ((c / 10 ^ k : Nat) : ℚ) + (c % 10 ^ k : Nat) = c := by
      exact_mod_cast Nat.div_add_mod c (10 ^ k)
    rw [eq_div_iff hten', add_mul, div_mul_cancel₀ _ hten', mul_comm]
    exact hdiv
  rw [← hsplit] at hmoderate ⊢
  rcases Nat.eq_zero_or_pos (c / 10 ^ k) with hzero | hpositive
  · rw [hzero, Nat.cast_zero, zero_add] at hmoderate ⊢
    have hadd : Float.ofNat 0 + x = x := by
      obtain ⟨m, hm, rfl, _⟩ := hfraction
      exact zero_add_stored hm
    rw [hadd]
    exact hfraction.mono hmoderate.pos (by omega)
  · exact ((hwhole hpositive).mono (Nat.cast_pos.2 hpositive) (by omega)).add hfraction (by omega)
      hmoderate

/-- The whole part of a decimal and its fraction, put together and taken once more as often as the
power of ten says.  Each of the numbers that it is made of is rounded at most `i` times. -/
theorem near_product (hi : i ≤ 1) (hk : k ≤ Scaled.maxPlaces) (hpos : 0 < c) (hc : c ≤ 2 ^ 200)
    (hwhole : 0 < c / 10 ^ k → Near i (c / 10 ^ k : Nat) (Float.ofNat (c / 10 ^ k)))
    (hfraction : Near (2 * i + 1) ((c % 10 ^ k : Nat) / (10 ^ k : Nat)) x)
    (hpower : Near i (10 ^ k : Nat) power) :
    Near (3 * i + 3) c ((Float.ofNat (c / 10 ^ k) + x) * power) := by
  have hten : 0 < 10 ^ k := Nat.pow_pos (by decide)
  have hten' : (0 : ℚ) < (10 ^ k : Nat) := Nat.cast_pos.2 hten
  have hmoderate := isModerate_div hpos hten hc (ten_pow_le hk)
  have hproduct := (near_sum hi hk hpos hc hwhole hfraction).mul hpower (by omega) hmoderate.pos
    hten'
  rw [div_mul_cancel₀ _ hten'.ne'] at hproduct
  have hcount : 3 * i + 3 = 2 * i + 2 + i + 1 := by omega
  rw [hcount]
  exact hproduct (isModerate_natCast hpos hc)

/-- Nothing divided by a power of ten. -/
theorem zero_div_power : ∀ k ≤ Scaled.maxPlaces,
    (Float.ofNat 0 / Float.ofNat (10 ^ k) == 0) = true := by
  decide +kernel

/-- A decimal that is a whole number has the float of this number. -/
theorem roundsTo_toFloat_of_whole (hk : k ≤ Scaled.maxPlaces) (hpos : 0 < k)
    (hwhole : c % 10 ^ k = 0) : RoundsTo (c / (10 ^ k : Nat)) (Scaled.mk c k).toFloat := by
  have hten : 0 < 10 ^ k := Nat.pow_pos (by decide)
  have hdvd : 10 ^ k ∣ c := Nat.dvd_of_mod_eq_zero hwhole
  have hfloat : (Scaled.mk c k).toFloat = Float.ofNat (c / 10 ^ k) := by
    unfold Scaled.toFloat
    rw [if_neg hpos.ne']
    dsimp only
    have hzero : c % Nat.pow 10 k = 0 := hwhole
    rw [hzero]
    exact if_pos (zero_div_power k hk)
  rw [hfloat, ← Nat.cast_div hdvd (Nat.cast_ne_zero.2 hten.ne')]
  exact roundsTo_ofNat _

/-- The float of a decimal with a fraction. -/
theorem toFloat_of_fraction (hpos : 0 < k) {v : ℚ}
    (hfraction : Near i v (Float.ofNat (c % 10 ^ k) / Float.ofNat (10 ^ k))) :
    (Scaled.mk c k).toFloat = roundToWhole ((Float.ofNat (c / 10 ^ k) +
      Float.ofNat (c % 10 ^ k) / Float.ofNat (10 ^ k)) * powerBySquaring k 1 10) /
        powerBySquaring k 1 10 := by
  have hne : (Float.ofNat (c % 10 ^ k) / Float.ofNat (10 ^ k) == 0) = false := by
    obtain ⟨m, hm, heq, _⟩ := hfraction
    rw [heq]
    exact stored_beq_zero hm
  unfold Scaled.toFloat
  rw [if_neg hpos.ne']
  exact if_neg (by rw [Bool.not_eq_true]; exact hne)

theorem Near.roundToWhole {v : ℚ} {x : Float} (h : Near i v x) :
    ∃ m : Magnitude, 0 < m.value ∧ Number.roundToWhole x = Float.ofNat m.rounded ∧
      Within i v m.value := by
  obtain ⟨m, hm, rfl, hwithin⟩ := h
  exact ⟨m, Magnitude.value_pos hm, roundToWhole_stored hm, hwithin⟩

/-- Three roundings change a number of fifteen digits by less than one half. -/
theorem Within.abs_sub_lt_half {v : ℚ} (h : Within 3 c v) (hv : 0 < v) (hc : c < 10 ^ 15) :
    |v - c| < 1 / 2 := by
  have hc' : (c : ℚ) < 10 ^ 15 := by exact_mod_cast hc
  have hlow := h.sub_le (Nat.cast_nonneg c)
  have hhigh := h.symm.sub_le hv.le
  norm_num [roundoff] at hlow hhigh
  rw [abs_lt]
  constructor <;> linarith

/-- Up to fifteen digits and twenty-two places a decimal has the float that it is rounded to. -/
theorem roundsTo_toFloat_of_few_digits (hk : k ≤ 22) (hpos : 0 < k) (hc : 0 < c)
    (hfew : c < 10 ^ 15) : RoundsTo (c / (10 ^ k : Nat)) (Scaled.mk c k).toFloat := by
  rcases Nat.eq_zero_or_pos (c % 10 ^ k) with hzero | hrest
  · exact roundsTo_toFloat_of_whole (hk.trans (by decide)) hpos hzero
  obtain ⟨hpower, hunit⟩ := isNatural_powers k hk
  have hbits (n : Nat) (hn : n ≤ c) : n < 2 ^ 53 := (hn.trans_lt hfew).trans (by decide)
  have hmax : k ≤ Scaled.maxPlaces := hk.trans (by decide)
  have hle : c ≤ 2 ^ 200 := hfew.le.trans (by decide)
  have hfraction := near_fraction zero_le_one hmax hrest hle
    (near_ofNat_exact hrest (hbits _ (Nat.mod_le _ _))) (near_of_isNatural hunit)
  have hproduct := near_product zero_le_one hmax hc hle
    (fun h => near_ofNat_exact h (hbits _ (Nat.div_le_self _ _))) hfraction
    (near_of_isNatural hpower)
  obtain ⟨m, hm, hrounded, hwithin⟩ := hproduct.roundToWhole
  obtain ⟨p, hp, hstored, hvalue⟩ := exists_stored_of_isNatural hpower
  have hdiv := roundsTo_div (Magnitude.isCanonical_ofNat hc (hbits c le_rfl)) hp
  rw [Magnitude.value_ofNat, hvalue] at hdiv
  rw [toFloat_of_fraction hpos hfraction, hrounded,
    Magnitude.rounded_eq (hwithin.abs_sub_lt_half hm hfew), hstored,
    ofNat_of_lt (hbits c le_rfl), toFloat_eq_stored hc (hbits c le_rfl)]
  exact hdiv

/-- Rounding to a whole number at most doubles the distance from one. -/
theorem Within.rounded {m : Magnitude} (h : Within 6 c m.value) (hm : 0 < m.value) :
    Within 13 c m.rounded := by
  have hlow := h.sub_le (Nat.cast_nonneg c)
  have hhigh := h.symm.sub_le hm.le
  have hc : (0 : ℚ) ≤ c := Nat.cast_nonneg c
  have hdistance : |m.value - c| ≤ c * (25 / 4 * roundoff) := by
    norm_num [roundoff] at hlow hhigh ⊢
    rw [abs_le]
    constructor <;> linarith
  have hrounded := abs_le.1 ((m.abs_rounded_sub_natCast_le c).trans
    (mul_le_mul_of_nonneg_left hdistance two_pos.le))
  have hpow : (1 - roundoff) ^ 13 ≤ 1 - 25 / 2 * roundoff := by norm_num [roundoff]
  have hpos := (rounded_pow_mem 13).1.le
  constructor
  · calc (c : ℚ) * (1 - roundoff) ^ 13 ≤ c * (1 - 25 / 2 * roundoff) :=
          mul_le_mul_of_nonneg_left hpow hc
      _ ≤ m.rounded := by linarith
  · calc (m.rounded : ℚ) * (1 - roundoff) ^ 13
        ≤ c * (1 + 25 / 2 * roundoff) * (1 - 25 / 2 * roundoff) :=
          mul_le_mul (by linarith) hpow hpos
            (mul_nonneg hc (by linarith [roundoff_pos]))
      _ = c - c * (25 / 2 * roundoff) ^ 2 := by ring
      _ ≤ c := sub_le_self _ (mul_nonneg hc (sq_nonneg _))

/-- The float of any decimal is not far from it. -/
theorem near_toFloat (hk : k ≤ Scaled.maxPlaces) (hpos : 0 < k) (hc : 0 < c)
    (hle : c ≤ 2 ^ 200) : Near 16 (c / (10 ^ k : Nat)) (Scaled.mk c k).toFloat := by
  have hten : 0 < 10 ^ k := Nat.pow_pos (by decide)
  have hmoderate := isModerate_div hc hten hle (ten_pow_le hk)
  rcases Nat.eq_zero_or_pos (c % 10 ^ k) with hzero | hrest
  · exact ((roundsTo_toFloat_of_whole hk hpos hzero).near (.refl _) (by decide) hmoderate).mono
      hmoderate.pos (by decide)
  have hpower := near_of_isNearNatural (isNearNatural_power k hk)
  have hfraction := near_fraction le_rfl hk hrest hle
    (near_ofNat (isModerate_natCast hrest ((Nat.mod_le _ _).trans hle)))
    (near_ofNat (isModerate_natCast hten (ten_pow_le hk)))
  have hproduct := near_product le_rfl hk hc hle
    (fun h => near_ofNat (isModerate_natCast h ((Nat.div_le_self _ _).trans hle))) hfraction
    hpower
  obtain ⟨m, hm, hrounded, hwithin⟩ := hproduct.roundToWhole
  rw [toFloat_of_fraction hpos hfraction, hrounded]
  have hwhole : Within 13 c m.rounded := hwithin.rounded hm
  have hfloat := (roundsTo_ofNat _).near hwhole (by decide) (isModerate_natCast hc hle)
  exact hfloat.div hpower (by decide) (Nat.cast_pos.2 hc) (Nat.cast_pos.2 hten) hmoderate

end Product

/-! ### Texts -/

/-- The count of digits behind the point of a text. -/
def fractionDigits (s : List Char) : Nat :=
  (s.dropWhile (· ≠ '.')).tail.length

/-- The number that the digits of a text denote without their point. -/
def wholeDigits (s : List Char) : Nat :=
  digitsValue (s.filter isDigit)

section Texts

variable {x : Float} {m : Magnitude} {c n : Nat}

theorem ne_point_of_isDigit {d : Char} (h : isDigit d = true) : d ≠ '.' := by
  rintro rfl
  cases h

theorem ne_point_of_mem_signText {d : Char} (h : d ∈ signText x) : d ≠ '.' ∧ isDigit d = false := by
  unfold signText at h
  split at h
  · rw [List.mem_singleton.1 h]
    decide
  · cases h

theorem plainChars_eq (hm : magnitude? x = some m) :
    plainChars x = signText x ++ (shortest .up m).positional := by
  rw [plainChars, hm]

/-- A number with decimal places is written with all of them behind the point. -/
theorem digits_of_negSucc (hm : magnitude? x = some m)
    (hshortest : shortest .up m = ⟨c, .negSucc n⟩) :
    fractionDigits (plainChars x) = n + 1 ∧ wholeDigits (plainChars x) = c := by
  obtain ⟨whole, fraction, htext, _, hwhole, hfraction, hlength, hvalue⟩ :=
    Decimal.exists_positional_negSucc c n
  have hchars : plainChars x = (signText x ++ whole) ++ '.' :: fraction := by
    rw [plainChars_eq hm, hshortest, List.append_assoc, ← htext]
  constructor
  · have hdrop : (plainChars x).dropWhile (· ≠ '.') = '.' :: fraction := by
      rw [hchars, List.dropWhile_append_of_pos]
      · simp
      · intro d hd
        refine decide_eq_true ?_
        rcases List.mem_append.1 hd with hd | hd
        · exact (ne_point_of_mem_signText hd).1
        · exact ne_point_of_isDigit (hwhole d hd)
    rw [fractionDigits, hdrop]
    exact hlength
  · have hsign : (signText x).filter isDigit = [] :=
      List.filter_eq_nil_iff.2 fun d hd => by simp [(ne_point_of_mem_signText hd).2]
    have hpoint : isDigit '.' = false := by decide
    rw [wholeDigits, hchars, List.filter_append, List.filter_append, hsign, List.nil_append,
      List.filter_cons_of_neg (by simp [hpoint]), List.filter_eq_self.2 hwhole,
      List.filter_eq_self.2 hfraction, hvalue]

end Texts

/-! ### Main result -/

section Main

variable {x : Float} {m : Magnitude} {c zeros n places : Nat}

/-- A number without decimal places is rounded to itself. -/
theorem roundHalfAway_of_ofNat (hm : m.IsCanonical) (negative : Bool)
    (hshortest : shortest .up m = ⟨c, .ofNat zeros⟩) :
    roundHalfAway (withSign negative (m.stored hm)) places = withSign negative (m.stored hm) := by
  have hholds := Magnitude.holds_shortest hm .up
  rw [hshortest] at hholds
  have hvalue : (c : ℚ) * 10 ^ (Int.ofNat zeros) = (c * 10 ^ zeros : Nat) := by
    rw [Int.ofNat_eq_natCast, zpow_natCast]
    push_cast
    rfl
  dsimp only at hholds
  rw [hvalue] at hholds
  have hpos : 0 < c * 10 ^ zeros := by
    have h := (zpow_pos two_pos _).trans (hholds.pos hm)
    exact_mod_cast h
  unfold roundHalfAway
  rw [magnitude?_withSign_stored hm, isNegative_withSign_stored hm]
  dsimp only
  rw [hshortest, Decimal.scaled?]
  dsimp only
  split
  · rfl
  · rename_i s hs
    split at hs
    · cases hs
    · cases hs
      have hne : ¬ c * Nat.pow 10 zeros = 0 := hpos.ne'
      rw [Scaled.toPlaces_of_le (Nat.zero_le _)]
      dsimp only
      rw [if_neg hne, Scaled.toFloat, if_pos rfl]
      exact congrArg _ ((roundsTo_ofNat _).eq_stored hm hholds)

/-- A number with at most as many decimal places as asked for is put together again from its
decimal. -/
theorem roundHalfAway_of_negSucc (hm : m.IsCanonical) (negative : Bool)
    (hshortest : shortest .up m = ⟨c, .negSucc n⟩) (hn : n + 1 ≤ places)
    (hplaces : places ≤ Scaled.maxPlaces) :
    0 < c ∧ m.Holds (c / (10 ^ (n + 1) : Nat)) ∧
      roundHalfAway (withSign negative (m.stored hm)) places =
        withSign negative (Scaled.mk c (n + 1)).toFloat := by
  have hholds := Magnitude.holds_shortest hm .up
  rw [hshortest] at hholds
  have hvalue : (c : ℚ) * 10 ^ (Int.negSucc n) = c / (10 ^ (n + 1) : Nat) := by
    rw [zpow_negSucc]
    push_cast
    rfl
  dsimp only at hholds
  rw [hvalue] at hholds
  have hpos : 0 < c := by
    refine Nat.pos_of_ne_zero fun hzero => ?_
    have h := (zpow_pos two_pos _).trans (hholds.pos hm)
    rw [hzero, Nat.cast_zero, zero_div] at h
    exact lt_irrefl _ h
  refine ⟨hpos, hholds, ?_⟩
  unfold roundHalfAway
  rw [magnitude?_withSign_stored hm, isNegative_withSign_stored hm]
  dsimp only
  rw [hshortest, Decimal.scaled?]
  dsimp only
  rw [Scaled.toPlaces_of_le (s := ⟨c, n + 1⟩) (hn.trans hplaces),
    Scaled.toPlaces_of_le (s := ⟨c, n + 1⟩) hn, if_neg hpos.ne']

theorem beq_self_of_isFinite (hx : x.isFinite = true) : (x == x) = true := by
  have hfinite : x.toModel.unpack.isFinite = true := hx
  show UnpackedFloat.beq x.toModel.unpack x.toModel.unpack = true
  cases hu : x.toModel.unpack with
  | notANumber => rw [hu] at hfinite; cases hfinite
  | infinity s => rw [hu] at hfinite; cases hfinite
  | zero s => rfl
  | finite s m e hm =>
    have hcompare : (compare e e).then (compare m m) = .eq := by
      rw [compare_eq_iff_eq.2 rfl, compare_eq_iff_eq.2 rfl]
      rfl
    cases s
    · show (some ((compare e e).then (compare m m)).swap == some .eq) = true
      rw [hcompare]
      rfl
    · show (some ((compare e e).then (compare m m)) == some .eq) = true
      rw [hcompare]
      rfl

/-- Seventeen roundings come to less than one part in `2^48`. -/
theorem Within.abs_sub_le_of_near {v w : ℚ} (h : Within 17 v w) (hv : 0 < v) (hw : 0 < w) :
    |w - v| ≤ v / 2 ^ 48 := by
  have hlow := h.sub_le hv.le
  have hhigh := h.symm.sub_le hw.le
  norm_num [roundoff] at hlow hhigh ⊢
  rw [abs_le]
  constructor <;> linarith

/-- Two floats denote rational numbers with a distance of at most one part in `2^48`. -/
def AreClose (x y : Float) : Prop :=
  ∃ q r, rational? x = some q ∧ rational? y = some r ∧ |r - q| ≤ |q| / 2 ^ 48

theorem AreClose.refl (hx : x.isFinite = true) : AreClose x x := by
  rw [← isSome_rational?] at hx
  obtain ⟨q, hq⟩ := Option.isSome_iff_exists.1 hx
  refine ⟨q, q, hq, hq, ?_⟩
  rw [sub_self, abs_zero]
  positivity

theorem areClose_withSign (hm : m.IsCanonical) {v : ℚ} {y : Float} (hv : IsModerate v)
    (hholds : m.Holds v) (hy : Near 16 v y) (negative : Bool) :
    AreClose (withSign negative (m.stored hm)) (withSign negative y) := by
  obtain ⟨n, hn, rfl, hwithin⟩ := hy
  have hnormal := hholds.normal hm ((zpow_le_zpow_right₀ one_le_two (by decide)).trans hv.1)
  have hm' := Magnitude.value_pos hm
  have hclose := ((hholds.within hm hnormal).symm.trans hwithin).abs_sub_le_of_near hm'
    (Magnitude.value_pos hn)
  refine ⟨_, _, rational?_withSign_stored hm negative, rational?_withSign_stored hn negative, ?_⟩
  rw [abs_signed _ hm'.le]
  refine le_trans (le_of_eq ?_) hclose
  cases negative with
  | false => rfl
  | true =>
    show |-n.value - -m.value| = _
    rw [neg_sub_neg, abs_sub_comm]

/-- The rounding of zero loses its sign only. -/
theorem roundHalfAway_of_zero {s : Sign} (places : Nat) (hzero : x.toModel.unpack = .zero s) :
    (roundHalfAway x places == x) = true ∧ AreClose x (roundHalfAway x places) := by
  have hmagnitude : magnitude? x = some ⟨0, -1074⟩ := by
    rw [magnitude?_eq, hzero]
    rfl
  have hround : roundHalfAway x places = 0 := by
    rw [roundHalfAway, hmagnitude]
    rfl
  have hexact : rational? 0 = some 0 := rational?_of_zero (s := .positive) rfl
  rw [hround]
  refine ⟨?_, 0, 0, rational?_of_zero hzero, hexact, ?_⟩
  · show UnpackedFloat.beq (.zero .positive) x.toModel.unpack = true
    rw [hzero]
    rfl
  · rw [sub_self, abs_zero, zero_div]

/-- A finite number that has no more decimal places than asked for is left as it is, if it has none
of them, or at most twenty-two and at most fifteen digits in all.  In any case the result lies
within one part in `2^48` of the number. -/
theorem roundHalfAway_of_places_le (hx : x.isFinite = true) (hplaces : places ≤ Scaled.maxPlaces)
    (hdigits : fractionDigits (plainChars x) ≤ places) :
    (fractionDigits (plainChars x) = 0 ∨
        fractionDigits (plainChars x) ≤ 22 ∧ wholeDigits (plainChars x) < 10 ^ 15 →
      (roundHalfAway x places == x) = true) ∧
      AreClose x (roundHalfAway x places) := by
  rcases finite_cases hx with ⟨s, hzero⟩ | ⟨m, hm, negative, rfl⟩
  · obtain ⟨hequal, hclose⟩ := roundHalfAway_of_zero places hzero
    exact ⟨fun _ => hequal, hclose⟩
  have hmagnitude := magnitude?_withSign_stored hm negative
  obtain ⟨c, e, hshortest⟩ : ∃ c e, shortest .up m = ⟨c, e⟩ := ⟨_, _, rfl⟩
  cases e with
  | ofNat zeros =>
    -- without decimal places nothing is rounded
    rw [roundHalfAway_of_ofNat hm negative hshortest]
    exact ⟨fun _ => beq_self_of_isFinite hx, AreClose.refl hx⟩
  | negSucc n =>
    obtain ⟨hfraction, hwhole⟩ := digits_of_negSucc hmagnitude hshortest
    rw [hfraction] at hdigits ⊢
    rw [hwhole]
    obtain ⟨hc, hholds, hround⟩ :=
      roundHalfAway_of_negSucc hm negative hshortest hdigits hplaces
    rw [hround]
    have hk : n + 1 ≤ Scaled.maxPlaces := hdigits.trans hplaces
    have hle : c ≤ 2 ^ 200 := by
      have h := coefficient_shortest_le hm.bits (congrArg Decimal.exponent hshortest)
      rw [hshortest] at h
      refine h.trans ((Nat.mul_le_mul_left _ (Nat.pow_le_pow_right (by decide) hk)).trans ?_)
      decide
    refine ⟨fun hfew => ?_, ?_⟩
    · -- few digits come back from the rounding, and their quotient is the number again
      obtain ⟨hk22, hc15⟩ := hfew.resolve_left (Nat.succ_ne_zero n)
      rw [(roundsTo_toFloat_of_few_digits hk22 n.succ_pos hc hc15).eq_stored hm hholds]
      exact beq_self_of_isFinite hx
    · exact areClose_withSign hm (isModerate_div hc (Nat.pow_pos (by decide)) hle (ten_pow_le hk))
        hholds (near_toFloat hk n.succ_pos hc hle) negative

/-- Four decimal places that are rounded to six: the last bit of the number is another one. -/
theorem roundHalfAway_of_places_le_lastBit :
    fractionDigits (plainChars 274937292168.0192) = 4 ∧
      (roundHalfAway 274937292168.0192 6 == 274937292168.0192) = false ∧
        AreClose 274937292168.0192 (roundHalfAway 274937292168.0192 6) := by
  have hdigits : fractionDigits (plainChars 274937292168.0192) = 4 := by decide +kernel
  have hchanged : (roundHalfAway 274937292168.0192 6 == 274937292168.0192) = false := by
    decide +kernel
  exact ⟨hdigits, hchanged,
    (roundHalfAway_of_places_le (by decide +kernel) (by decide) (hdigits ▸ by decide)).2⟩

end Main

end EnergyFormula.Number
