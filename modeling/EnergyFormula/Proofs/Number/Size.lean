import EnergyFormula.Proofs.Number.Product

/-!
# The size of numbers

`Below bound x` says that a number is finite and less than `2^bound` in magnitude; the finite numbers
are those below `2^1024` (`isFinite_iff_below`).  Sums, products, and quotients by a number that is
at least one stay below the bounds that the exact results suggest, with one bit more for the rounding
(`Below.add`, `Below.mul`, `Below.div`).  The proof follows the stages of an operation:

* `fitsBelow_roundWithAccuracy`: what is rounded has the bits of a stored number, or fewer at the
  least exponent, and at most one bit more than before;
* `unpack_pack`: a number with such bits is stored as it is, as long as its exponent is not too
  large;
* `FitsBelow.add`, `FitsBelow.mul`, `FitsBelow.div`: the bits of exact sums, products and quotients.
-/

namespace EnergyFormula.Number

open Float.Model UnpackedFloat

/-- Zero, or a number with the bits and the exponent of a finite one, and less than `2^bound` in
magnitude. -/
def FitsBelow (bound : Int) : UnpackedFloat → Prop
  | .zero _ => True
  | .finite _ m e _ => m < 2 ^ 53 ∧ -1074 ≤ e ∧ (2 ^ 52 ≤ m ∨ e = -1074) ∧ e + 53 ≤ bound
  | .infinity _ => False
  | .notANumber => False

instance (bound : Int) (u : UnpackedFloat) : Decidable (FitsBelow bound u) :=
  match u with
  | .zero _ => .isTrue trivial
  | .finite _ m e _ => inferInstanceAs
    (Decidable (m < 2 ^ 53 ∧ -1074 ≤ e ∧ (2 ^ 52 ≤ m ∨ e = -1074) ∧ e + 53 ≤ bound))
  | .infinity _ => .isFalse id
  | .notANumber => .isFalse id

theorem FitsBelow.mono {a b : Int} (hab : a ≤ b) {u : UnpackedFloat} (h : FitsBelow a u) :
    FitsBelow b u := by
  cases u with
  | zero s => trivial
  | finite s m e hm => exact ⟨h.1, h.2.1, h.2.2.1, by have := h.2.2.2; omega⟩
  | infinity s => exact h
  | notANumber => exact h

/-! ### Rounding -/

theorem targetExponent_eq (t : Int) : Format.binary64.targetExponent t = max (t - 53) (-1074) := by
  simp only [Format.targetExponent]
  rfl

theorem mantissa_shiftRight (em : ExtendedMantissa) (k : Nat) :
    (em >>> k).mantissa = em.mantissa / 2 ^ k := by
  induction k with
  | zero => rw [Nat.pow_zero, Nat.div_one]; rfl
  | succ k ih =>
    show (em >>> k).mantissa / 2 = _
    rw [ih, Nat.div_div_eq_div_mul, Nat.pow_succ]

theorem mantissa_ofMantissaAndAccuracy (m : Nat) (a : Accuracy) :
    (ExtendedMantissa.ofMantissaAndAccuracy m a).mantissa = m := by
  cases a with
  | exact => rfl
  | inexact o => cases o <;> rfl

/-- Rounding adds one to the mantissa, or nothing. -/
theorem roundedMantissa_mem (em : ExtendedMantissa) :
    em.mantissa ≤ em.roundedMantissa ∧ em.roundedMantissa ≤ em.mantissa + 1 := by
  obtain ⟨m, round, sticky⟩ := em
  cases round <;> cases sticky <;>
    simp only [ExtendedMantissa.roundedMantissa, ExtendedMantissa.accuracy,
      Accuracy.roundToNearestEven] <;> omega

/-- A mantissa of at most 53 bits is not shifted. -/
theorem shiftToTargetExponent_of_lt {m : Nat} {e : Int} (hm : m < 2 ^ 53) (he : -1074 ≤ e) :
    shiftToTargetExponent .binary64 m e .exact = (⟨m, false, false⟩, e) := by
  have hlog : m.log2 ≤ 52 := by
    by_cases hzero : m = 0
    · rw [hzero, Nat.log2_zero]
      omega
    · exact Nat.le_of_lt_succ ((Nat.log2_lt hzero).2 hm)
  have hshift : (Format.binary64.targetExponent (totalExponent m e) - e).toNat = 0 := by
    rw [targetExponent_eq, totalExponent]
    omega
  rw [shiftToTargetExponent, shiftToExponent, hshift, Int.natCast_zero, Int.add_zero]
  rfl

theorem shiftToTargetExponent_two_pow {e : Int} (he : -1074 ≤ e) :
    shiftToTargetExponent .binary64 (2 ^ 53) e .exact = (⟨2 ^ 52, false, false⟩, e + 1) := by
  have hshift : (Format.binary64.targetExponent (totalExponent (2 ^ 53) e) - e).toNat = 1 := by
    rw [targetExponent_eq, totalExponent, Nat.log2_two_pow]
    omega
  rw [shiftToTargetExponent, shiftToExponent, hshift]
  rfl

/-- Where the first shift ends: at 53 bits, or at the least exponent. -/
theorem first_shift {m : Nat} {e : Int} (hbits : 52 ≤ m.log2 ∨ e ≤ -1074)
    (a : Accuracy) :
    (shiftToTargetExponent .binary64 m e a).1.roundedMantissa ≤ 2 ^ 53 ∧
      (shiftToTargetExponent .binary64 m e a).2 = max (totalExponent m e - 53) (-1074) ∧
        (2 ^ 52 ≤ (shiftToTargetExponent .binary64 m e a).1.roundedMantissa ∨
          (shiftToTargetExponent .binary64 m e a).2 = -1074) := by
  have htotal : totalExponent m e = m.log2 + 1 + e := rfl
  generalize hk : (Format.binary64.targetExponent (totalExponent m e) - e).toNat = k
  have hexponent : (shiftToTargetExponent .binary64 m e a).2 =
      max (totalExponent m e - 53) (-1074) := by
    rw [shiftToTargetExponent, shiftToExponent, hk]
    rw [targetExponent_eq] at hk
    dsimp only
    omega
  have hmantissa : (shiftToTargetExponent .binary64 m e a).1.mantissa = m / 2 ^ k := by
    rw [shiftToTargetExponent, shiftToExponent, hk]
    show (ExtendedMantissa.ofMantissaAndAccuracy m a >>> k).mantissa = _
    rw [mantissa_shiftRight, mantissa_ofMantissaAndAccuracy]
  obtain ⟨hle, hge⟩ := roundedMantissa_mem (shiftToTargetExponent .binary64 m e a).1
  rw [hmantissa] at hle hge
  rw [targetExponent_eq] at hk
  -- the bits beyond 53 are shifted out
  have hupper : m / 2 ^ k < 2 ^ 53 := by
    rw [Nat.div_lt_iff_lt_mul (Nat.two_pow_pos k), ← Nat.pow_add]
    calc m < 2 ^ (m.log2 + 1) := Nat.lt_log2_self
      _ ≤ 2 ^ (53 + k) := Nat.pow_le_pow_right (by decide) (by omega)
  refine ⟨by omega, hexponent, ?_⟩
  by_cases hleast : totalExponent m e - 53 ≤ -1074
  · right
    omega
  · left
    have hlower : 2 ^ 52 ≤ m / 2 ^ k := by
      rw [Nat.le_div_iff_mul_le (Nat.two_pow_pos k), ← Nat.pow_add]
      have hlog : 52 + k = m.log2 := by omega
      have hne : m ≠ 0 := by
        rintro rfl
        rw [Nat.log2_zero] at hlog
        omega
      rw [hlog]
      exact Nat.log2_self_le hne
    omega

/-- A rounded number is at most twice as large as the exact one. -/
theorem fitsBelow_roundWithAccuracy {m : Nat} {e : Int}
    (hbits : 52 ≤ m.log2 ∨ e ≤ -1074) {bound : Int} (hzero : 0 ≤ bound)
    (hbound : totalExponent m e < bound) (s : Sign) (a : Accuracy) :
    FitsBelow bound (roundWithAccuracy .binary64 s m e a) := by
  obtain ⟨hr, he, hlow⟩ := first_shift hbits a
  generalize hfirst : shiftToTargetExponent .binary64 m e a = first at hr he hlow
  obtain ⟨em, e₁⟩ := first
  dsimp only at hr he hlow
  rw [roundWithAccuracy, hfirst]
  dsimp only
  by_cases hsmall : em.roundedMantissa < 2 ^ 53
  · rw [shiftToTargetExponent_of_lt hsmall (by omega)]
    dsimp only
    split
    · trivial
    · exact ⟨hsmall, by omega, hlow, by omega⟩
  · have hfull : em.roundedMantissa = 2 ^ 53 := by omega
    rw [hfull, shiftToTargetExponent_two_pow (by omega)]
    dsimp only
    rw [dif_neg (by decide)]
    exact ⟨by decide, by omega, .inl (Nat.le_refl _), by omega⟩

/-! ### Packing -/

theorem unpackSign_packComponents {spec : Format} (s : Sign) (e : BitVec spec.exponentBits)
    (m : BitVec spec.mantissaBitsWithoutImplicit) :
    unpackSign (packComponents spec s e m) = s.toBitVec := by
  refine BitVec.eq_of_getLsbD_eq fun i hi => ?_
  have hzero : i = 0 := by omega
  subst hzero
  simp [unpackSign, packComponents, BitVec.getLsbD_append, BitVec.getElem_append]

theorem ofBitVec_toBitVec (s : Sign) : Sign.ofBitVec s.toBitVec = s := by
  cases s <;> rfl

/-- A normal number is stored as it is. -/
theorem unpack_pack_normal (s : Sign) {m : Nat} (hm : 0 < m) {e : Int} (hlow : 2 ^ 52 ≤ m)
    (hbits : m < 2 ^ 53) (hleast : -1074 ≤ e) (hbound : e ≤ 971) :
    (Float.Model.pack (.finite s m e hm)).unpack = .finite s m e hm := by
  have hlog : m.log2 = 52 := (Nat.log2_eq_iff (Nat.ne_of_gt hm)).2 ⟨hlow, hbits⟩
  obtain ⟨n, hn⟩ : ∃ n : Nat, e = (n : Int) - 1075 := ⟨(e + 1075).toNat, by omega⟩
  have hpack : UnpackedFloat.pack .binary64 (.finite s m e hm) =
      packComponents .binary64 s (BitVec.ofNat 11 n) (BitVec.ofNat 52 m) := by
    have hbiased : (e + (1023 : Nat) + (52 : Nat)).toNat = n := by omega
    have hfits : ¬ 2 ^ 11 ≤ n + 1 := by omega
    show (if 2 ^ 11 ≤ (e + (1023 : Nat) + (52 : Nat)).toNat + 1 then _ else
      if m.log2 + 1 = 53 then packComponents .binary64 s
        (BitVec.ofNat 11 (e + (1023 : Nat) + (52 : Nat)).toNat) _ else _) = _
    rw [hbiased, if_neg hfits, hlog, if_pos rfl]
  have hexponent : (BitVec.ofNat 11 n).toNat = n := by
    rw [BitVec.toNat_ofNat, Nat.mod_eq_of_lt (by omega)]
  have hmantissa : 2 ^ 52 + (BitVec.ofNat 52 m).toNat = m := by
    rw [BitVec.toNat_ofNat]
    omega
  -- the exponent is stored neither as that of infinity nor as that of a subnormal number
  have hfinite : BitVec.ofNat 11 n ≠ -1#11 := by
    intro h
    rw [h] at hexponent
    have : n = 2047 := hexponent.symm
    omega
  have hnormal : BitVec.ofNat 11 n ≠ 0#11 := by
    intro h
    rw [h] at hexponent
    have : n = 0 := hexponent.symm
    omega
  show UnpackedFloat.unpack .binary64 (UnpackedFloat.pack .binary64 (.finite s m e hm)) = _
  rw [unpack_eq, hpack]
  simp only [unpackExponent_packComponents, unpackMantissa_packComponents,
    unpackSign_packComponents, ofBitVec_toBitVec]
  rw [if_neg hfinite, if_neg hnormal]
  simp only [hexponent, hmantissa, hn]

/-- A subnormal number is stored as it is. -/
theorem unpack_pack_subnormal (s : Sign) {m : Nat} (hm : 0 < m) (hbits : m < 2 ^ 52) :
    (Float.Model.pack (.finite s m (-1074) hm)).unpack = .finite s m (-1074) hm := by
  have hlog : m.log2 + 1 ≠ 53 := by
    have := (Nat.log2_lt (Nat.ne_of_gt hm)).2 hbits
    omega
  have hpack : UnpackedFloat.pack .binary64 (.finite s m (-1074) hm) =
      packComponents .binary64 s 0#11 (BitVec.ofNat 52 m) := by
    show (if m.log2 + 1 = 53 then _ else _) = _
    rw [if_neg hlog]
  have hmantissa : (BitVec.ofNat 52 m).toNat = m := by
    rw [BitVec.toNat_ofNat, Nat.mod_eq_of_lt hbits]
  have hne : BitVec.ofNat 52 m ≠ 0#52 := by
    intro h
    rw [h] at hmantissa
    have : m = 0 := hmantissa.symm
    omega
  show UnpackedFloat.unpack .binary64 (UnpackedFloat.pack .binary64 (.finite s m _ hm)) = _
  rw [unpack_eq, hpack]
  simp only [unpackExponent_packComponents, unpackMantissa_packComponents,
    unpackSign_packComponents, ofBitVec_toBitVec]
  rw [if_neg (by decide), if_pos trivial, dif_neg hne]
  simp only [hmantissa]

/-- A number that fits below `2^1024` is stored as it is. -/
theorem unpack_pack {u : UnpackedFloat} (h : FitsBelow 1024 u) :
    (Float.Model.pack u).unpack = u := by
  cases u with
  | infinity s => exact h.elim
  | notANumber => exact h.elim
  | zero s => cases s <;> rfl
  | finite s m e hm =>
    obtain ⟨hbits, hleast, hlow, hbound⟩ := h
    by_cases hnormal : 2 ^ 52 ≤ m
    · exact unpack_pack_normal s hm hnormal hbits hleast (by omega)
    · obtain rfl := hlow.resolve_left hnormal
      exact unpack_pack_subnormal s hm (by omega)

/-! ### Arithmetic -/

theorem FitsBelow.cases {bound : Int} {u : UnpackedFloat} (h : FitsBelow bound u) :
    (∃ s, u = .zero s) ∨ ∃ s m e, ∃ hm : 0 < m, u = .finite s m e hm ∧ m < 2 ^ 53 ∧
      (m.log2 = 52 ∨ e = -1074 ∧ m.log2 ≤ 52) ∧ e + 53 ≤ bound := by
  cases u with
  | infinity s => exact h.elim
  | notANumber => exact h.elim
  | zero s => exact .inl ⟨s, rfl⟩
  | finite s m e hm =>
    obtain ⟨hbits, hleast, hlow, hbound⟩ := h
    refine .inr ⟨s, m, e, hm, rfl, hbits, ?_, hbound⟩
    have hlog : m.log2 < 53 := (Nat.log2_lt (Nat.ne_of_gt hm)).2 hbits
    rcases hlow with hlow | hlow
    · exact .inl ((Nat.log2_eq_iff (Nat.ne_of_gt hm)).2 ⟨hlow, hbits⟩)
    · exact .inr ⟨hlow, by omega⟩

theorem log2_mul_mem {m n : Nat} (hm : 0 < m) (hn : 0 < n) :
    m.log2 + n.log2 ≤ (m * n).log2 ∧ (m * n).log2 ≤ m.log2 + n.log2 + 1 := by
  have hne : m * n ≠ 0 := Nat.ne_of_gt (Nat.mul_pos hm hn)
  constructor
  · rw [Nat.le_log2 hne, Nat.pow_add]
    exact Nat.mul_le_mul (Nat.log2_self_le (Nat.ne_of_gt hm)) (Nat.log2_self_le (Nat.ne_of_gt hn))
  · have hlt : (m * n).log2 < (m.log2 + 1) + (n.log2 + 1) := by
      rw [Nat.log2_lt hne, Nat.pow_add]
      exact Nat.mul_lt_mul'' Nat.lt_log2_self Nat.lt_log2_self
    omega

/-- A product is less than the product of the bounds. -/
theorem FitsBelow.mul {a b c : Int} {u v : UnpackedFloat} (hu : FitsBelow a u)
    (hv : FitsBelow b v) (hzero : 0 ≤ c) (hc : a + b < c) :
    FitsBelow c (UnpackedFloat.mul .binary64 u v) := by
  obtain ⟨s, rfl⟩ | ⟨s, m, e, hm, rfl, -, hmlog, hmbound⟩ := hu.cases
  · obtain ⟨t, rfl⟩ | ⟨t, n, f, hn, rfl, -, hnlog, hnbound⟩ := hv.cases
    · trivial
    · trivial
  · obtain ⟨t, rfl⟩ | ⟨t, n, f, hn, rfl, -, hnlog, hnbound⟩ := hv.cases
    · trivial
    · obtain ⟨hlow, hhigh⟩ := log2_mul_mem hm hn
      refine fitsBelow_roundWithAccuracy (by omega) hzero ?_ _ _
      rw [totalExponent]
      omega

/-- Rounding of a number whose mantissa has any number of bits. -/
theorem fitsBelow_round {m k : Nat} (hm : 0 < m) (hk : m < 2 ^ k) {e bound : Int}
    (hzero : 0 ≤ bound) (hbound : k + e < bound) (s : Sign) :
    FitsBelow bound (UnpackedFloat.round .binary64 s m e) := by
  have hlog : m.log2 < k := (Nat.log2_lt (Nat.ne_of_gt hm)).2 hk
  rw [UnpackedFloat.round, decreaseExponent]
  generalize hshift : (e - Format.binary64.targetExponent (totalExponent m e)).toNat = d
  rw [targetExponent_eq, totalExponent] at hshift
  have hlog' : (m <<< d).log2 = m.log2 + d := by
    rw [Nat.shiftLeft_eq, log2_mul_two_pow hm]
  refine fitsBelow_roundWithAccuracy ?_ hzero ?_ _ _
  · rw [hlog']
    omega
  · rw [totalExponent, hlog']
    omega

theorem fitsBelow_normalize {n : Int} {k : Nat} (hk : n.natAbs < 2 ^ k) {e bound : Int}
    (hzero : 0 ≤ bound) (hbound : k + e < bound) (z : Sign) :
    FitsBelow bound (UnpackedFloat.normalize .binary64 n e z) := by
  unfold UnpackedFloat.normalize
  split
  · rename_i hn
    rw [compare_lt_iff_lt] at hn
    exact fitsBelow_round (by omega) (by omega) hzero hbound _
  · trivial
  · rename_i hn
    rw [compare_gt_iff_gt] at hn
    exact fitsBelow_round (by omega) (by omega) hzero hbound _

theorem shiftLeft_lt {m : Nat} (hm : m < 2 ^ 53) {e l a : Int} (ha : e + 53 ≤ a) (hl : l ≤ e) :
    m <<< (e - l).toNat < 2 ^ (a - l).toNat := by
  rw [Nat.shiftLeft_eq]
  calc m * 2 ^ (e - l).toNat < 2 ^ 53 * 2 ^ (e - l).toNat :=
        Nat.mul_lt_mul_of_pos_right hm (Nat.two_pow_pos _)
    _ = 2 ^ (53 + (e - l).toNat) := (Nat.pow_add _ _ _).symm
    _ ≤ 2 ^ (a - l).toNat := Nat.pow_le_pow_right (by decide) (by omega)

/-- A sum is less than twice the bound of its terms. -/
theorem FitsBelow.add {a c : Int} {u v : UnpackedFloat} (hu : FitsBelow a u) (hv : FitsBelow a v)
    (hzero : 0 ≤ c) (hc : a + 1 < c) : FitsBelow c (UnpackedFloat.add .binary64 u v) := by
  have hu' := hu.mono (show a ≤ c by omega)
  have hv' := hv.mono (show a ≤ c by omega)
  obtain ⟨s, rfl⟩ | ⟨s, m, e, hm, rfl, hmbits, -, hmbound⟩ := hu.cases
  · obtain ⟨t, rfl⟩ | ⟨t, n, f, hn, rfl, hnbits, -, hnbound⟩ := hv.cases
    · cases s <;> cases t <;> trivial
    · exact hv'
  · obtain ⟨t, rfl⟩ | ⟨t, n, f, hn, rfl, hnbits, -, hnbound⟩ := hv.cases
    · exact hu'
    · -- both mantissas are brought to the lesser exponent
      have hm' := shiftLeft_lt hmbits hmbound (Int.min_le_left e f)
      have hn' := shiftLeft_lt hnbits hnbound (Int.min_le_right e f)
      have hsum : (s.apply (m <<< (e - min e f).toNat) + t.apply (n <<< (f - min e f).toNat)).natAbs
          < 2 ^ ((a - min e f).toNat + 1) := by
        have happly : ∀ (s : Sign) (n : Nat), (s.apply n).natAbs = n := by
          intro s n
          cases s <;> simp [Sign.apply]
        have hle := Int.natAbs_add_le (s.apply (m <<< (e - min e f).toNat))
          (t.apply (n <<< (f - min e f).toNat))
        rw [happly, happly] at hle
        rw [Nat.pow_succ]
        omega
      exact fitsBelow_normalize hsum hzero (by omega) _

theorem FitsBelow.neg {a : Int} {u : UnpackedFloat} (hu : FitsBelow a u) : FitsBelow a u.neg := by
  cases u with
  | zero s => trivial
  | finite s m e hm => exact hu
  | infinity s => exact hu.elim
  | notANumber => exact hu.elim

/-- The number is at least one. -/
def AtLeastOne : UnpackedFloat → Prop
  | .finite _ m e _ => 2 ^ 52 ≤ m ∧ -52 ≤ e
  | _ => False

theorem log2_le_log2 {m n : Nat} (h : m ≤ n) : m.log2 ≤ n.log2 := by
  rw [Nat.log2_eq_log_two, Nat.log2_eq_log_two]
  exact Nat.log_mono_right h

instance (u : UnpackedFloat) : Decidable (AtLeastOne u) :=
  match u with
  | .finite _ m e _ => inferInstanceAs (Decidable (2 ^ 52 ≤ m ∧ -52 ≤ e))
  | .zero _ => .isFalse id
  | .infinity _ => .isFalse id
  | .notANumber => .isFalse id

/-- A quotient has at most the bits of the dividend without those of the divisor. -/
theorem log2_div_le (m : Nat) {n : Nat} (hn : 0 < n) : (m / n).log2 ≤ m.log2 - n.log2 := by
  by_cases hzero : m / n = 0
  · rw [hzero, Nat.log2_zero]
    exact Nat.zero_le _
  · have hmul := (log2_mul_mem (Nat.pos_of_ne_zero hzero) hn).1
    have hle : (m / n * n).log2 ≤ m.log2 := log2_le_log2 (Nat.div_mul_le_self m n)
    omega

theorem le_log2_div {m n : Nat} (hm : 0 < m) (hn : 0 < n) (hle : n.log2 + 53 ≤ m.log2) :
    52 ≤ (m / n).log2 := by
  have hlow : 2 ^ 52 ≤ m / n := by
    rw [Nat.le_div_iff_mul_le hn]
    calc 2 ^ 52 * n ≤ 2 ^ 52 * 2 ^ (n.log2 + 1) := Nat.mul_le_mul_left _ Nat.lt_log2_self.le
      _ = 2 ^ (n.log2 + 53) := by rw [← Nat.pow_add, Nat.add_comm 52, Nat.add_assoc]
      _ ≤ 2 ^ m.log2 := Nat.pow_le_pow_right (by decide) hle
      _ ≤ m := Nat.log2_self_le (Nat.ne_of_gt hm)
  exact (Nat.le_log2 (by omega)).2 hlow

/-- The dividend is shifted so far that the quotient has enough bits, unless its exponent is the
least one. -/
theorem bits_quotient {m n : Nat} (hm : 0 < m) (hn : 0 < n) {e f l : Int} {k : Nat}
    (hl : min (e - f) (max (m.log2 + 1 + e - (n.log2 + 1 + f) - 53) (-1074)) = l)
    (hk : (e - f - l).toNat = k) : 52 ≤ (m <<< k / n).log2 ∨ l ≤ -1074 := by
  have hlog : (m <<< k).log2 = m.log2 + k := by rw [Nat.shiftLeft_eq, log2_mul_two_pow hm]
  have hpos : 0 < m <<< k := by
    rw [Nat.shiftLeft_eq]
    exact Nat.mul_pos hm (Nat.two_pow_pos k)
  by_cases hle : n.log2 + 53 ≤ (m <<< k).log2
  · exact .inl (le_log2_div hpos hn hle)
  · right
    omega

/-- A quotient is no larger than a bound of the dividend, if the divisor is at least one. -/
theorem FitsBelow.div {a c : Int} {u v : UnpackedFloat} (hu : FitsBelow a u) (hv : AtLeastOne v)
    (hzero : 0 ≤ c) (hc : a < c) : FitsBelow c (UnpackedFloat.div .binary64 u v) := by
  cases v with
  | zero t => exact hv.elim
  | infinity t => exact hv.elim
  | notANumber => exact hv.elim
  | finite t n f hn =>
    obtain ⟨hnlow, hf⟩ := hv
    obtain ⟨s, rfl⟩ | ⟨s, m, e, hm, rfl, -, hmlog, hmbound⟩ := hu.cases
    · trivial
    · have hnlog : 52 ≤ n.log2 := (Nat.le_log2 (Nat.ne_of_gt hn)).2 hnlow
      show FitsBelow c (roundWithAccuracy .binary64 (s / t) (divCore .binary64 m e n f).1
        (divCore .binary64 m e n f).2.1 (divCore .binary64 m e n f).2.2)
      unfold divCore
      dsimp only
      rw [targetExponent_eq, totalExponent, totalExponent]
      generalize hl : min (e - f) (max (m.log2 + 1 + e - (n.log2 + 1 + f) - 53) (-1074)) = l
      generalize hk : (e - f - l).toNat = k
      have hlog : (m <<< k).log2 = m.log2 + k := by rw [Nat.shiftLeft_eq, log2_mul_two_pow hm]
      have hhigh := log2_div_le (m <<< k) hn
      refine fitsBelow_roundWithAccuracy (bits_quotient hm hn hl hk) hzero ?_ _ _
      rw [totalExponent]
      omega

/-! ### Numbers -/

/-- The number is finite and less than `2^bound` in magnitude. -/
def Below (bound : Int) (x : Float) : Prop :=
  FitsBelow bound x.toModel.unpack

theorem Below.mono {a b : Int} (hab : a ≤ b) {x : Float} (h : Below a x) : Below b x :=
  FitsBelow.mono hab h

theorem below_pack {bound : Int} (hbound : bound ≤ 1024) {u : UnpackedFloat}
    (h : FitsBelow bound u) : Below bound (.ofModel (.pack u)) := by
  unfold Below
  rw [unpack_pack (h.mono hbound)]
  exact h

/-- What is stored fits below `2^1024`, unless it is infinite or no number. -/
theorem fitsBelow_unpack {b : BitVec Format.binary64.numBits}
    (h : (UnpackedFloat.unpack .binary64 b).isFinite = true) :
    FitsBelow 1024 (UnpackedFloat.unpack .binary64 b) := by
  have hm : (unpackMantissa b).toNat < 2 ^ 52 := (unpackMantissa b).isLt
  have he : (unpackExponent b).toNat < 2048 := (unpackExponent b).isLt
  rw [unpack_eq] at h ⊢
  by_cases hfinite : unpackExponent b = -1#_
  · rw [if_pos hfinite] at h
    split at h <;> cases h
  rw [if_neg hfinite]
  by_cases hnormal : unpackExponent b = 0#_
  · rw [if_pos hnormal]
    split
    · trivial
    · exact ⟨by omega, Int.le_refl _, .inr rfl, by omega⟩
  · have htop : (unpackExponent b).toNat ≠ 2047 := fun h => hfinite (BitVec.eq_of_toNat_eq h)
    have hpos : (unpackExponent b).toNat ≠ 0 := fun h => hnormal (BitVec.eq_of_toNat_eq h)
    rw [if_neg hnormal]
    exact ⟨by omega, by omega, .inl (by omega), by omega⟩

/-- The finite numbers are those below `2^1024`. -/
theorem isFinite_iff_below {x : Float} : x.isFinite = true ↔ Below 1024 x := by
  refine ⟨fun h => fitsBelow_unpack h, fun h => ?_⟩
  show x.toModel.unpack.isFinite = true
  unfold Below at h
  cases hu : x.toModel.unpack with
  | zero s => rfl
  | finite s m e hm => rfl
  | infinity s => rw [hu] at h; exact h.elim
  | notANumber => rw [hu] at h; exact h.elim

theorem Below.isFinite {bound : Int} (hbound : bound ≤ 1024) {x : Float} (h : Below bound x) :
    x.isFinite = true :=
  isFinite_iff_below.2 (h.mono hbound)

/-- A product is less than the product of the bounds. -/
theorem Below.mul {a b c : Int} {x y : Float} (hx : Below a x) (hy : Below b y) (hzero : 0 ≤ c)
    (hc : a + b < c) (hle : c ≤ 1024) : Below c (x * y) :=
  below_pack hle (FitsBelow.mul hx hy hzero hc)

/-- A sum is less than twice the bound of its terms. -/
theorem Below.add {a c : Int} {x y : Float} (hx : Below a x) (hy : Below a y) (hzero : 0 ≤ c)
    (hc : a + 1 < c) (hle : c ≤ 1024) : Below c (x + y) :=
  below_pack hle (FitsBelow.add hx hy hzero hc)

/-- A quotient is no larger than a bound of the dividend, if the divisor is at least one. -/
theorem Below.div {a c : Int} {x y : Float} (hx : Below a x) (hy : AtLeastOne y.toModel.unpack)
    (hzero : 0 ≤ c) (hc : a < c) (hle : c ≤ 1024) : Below c (x / y) :=
  below_pack hle (FitsBelow.div hx hy hzero hc)

theorem Below.neg {a : Int} (hle : a ≤ 1024) {x : Float} (hx : Below a x) : Below a (-x) :=
  below_pack hle (FitsBelow.neg hx)

theorem toNat_toUInt64 {n : Nat} (h : n < 2 ^ 53) : n.toUInt64.toNat = n := by
  rw [Nat.toUInt64, UInt64.toNat_ofNat_of_lt']
  exact Nat.lt_trans h (by decide)

/-- A natural number with at most 53 bits is converted as a machine word. -/
theorem ofNat_of_lt {n : Nat} (h : n < 2 ^ 53) : Float.ofNat n = n.toUInt64.toFloat := by
  show Float.ofScientific n false 0 = _
  unfold Float.ofScientific
  rw [dif_pos ⟨h, by decide⟩]
  exact Number.mul_one _

/-- A natural number with more bits is rounded as the product with a power of ten that is one. -/
theorem ofNat_of_le {n : Nat} (h : 2 ^ 53 ≤ n) : Float.ofNat n =
    .ofModel (.pack (roundWithAccuracy .binary64 .positive (n * 2 ^ 53) (-53) .exact)) := by
  have hround : UnpackedFloat.ofScientific .binary64 n 0 = roundWithAccuracy .binary64
      (.positive * .positive) (n <<< 53 * 10 ^ Int.toNat 0) (-53 + 0) .exact := by
    have hexponent : (2 : Int) ^ Format.binary64.exponentBits = 2048 := rfl
    unfold UnpackedFloat.ofScientific
    rw [dif_neg (by omega), hexponent, if_neg (by decide), if_neg (by omega),
      if_pos (Int.le_refl 0)]
    rfl
  show Float.ofScientific n false 0 = _
  unfold Float.ofScientific
  rw [dif_neg fun hfast => Nat.not_lt.2 h hfast.1]
  show Float.ofModel (.pack (UnpackedFloat.ofScientific .binary64 n 0)) = _
  rw [hround, Int.toNat_zero, Nat.pow_zero, Nat.mul_one, Nat.shiftLeft_eq]
  rfl

/-- A natural number is less than the next power of two, and so is the float next to it. -/
theorem below_ofNat {n k : Nat} (hk : n < 2 ^ k) {bound : Int} (hbound : k < bound)
    (hle : bound ≤ 1024) : Below bound (Float.ofNat n) := by
  by_cases hsmall : n < 2 ^ 53
  · rw [ofNat_of_lt hsmall]
    refine below_pack hle (fitsBelow_normalize (k := k) ?_ (by omega) (by omega) _)
    rw [toNat_toUInt64 hsmall]
    exact hk
  · have hpos : 0 < n := by omega
    have hlog : (n * 2 ^ 53).log2 = n.log2 + 53 := log2_mul_two_pow hpos 53
    have hlt : n.log2 < k := (Nat.log2_lt (Nat.ne_of_gt hpos)).2 hk
    rw [ofNat_of_le (Nat.le_of_not_lt hsmall)]
    refine below_pack hle (fitsBelow_roundWithAccuracy (.inl ?_) (by omega) ?_ _ _)
    · rw [hlog]
      omega
    · rw [totalExponent, hlog]
      omega

end EnergyFormula.Number
