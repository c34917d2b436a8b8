import EnergyFormula.Number.Magnitude
import Mathlib

/-!
# Products

Multiplication by one changes no number, be it infinite, a signed zero or no number at all
(`Number.mul_one`).  The proof follows the stages of a multiplication:

* `pack_unpack_model`: taking a number apart and putting it together again gives the same one;
* `targetExponent_unpack`: the exponent of a finite number is already the one that rounding aims
  at;
* `roundWithAccuracy_mul_pow`: rounding takes away zero bits that were put behind such a mantissa,
  and nothing else.

`Number.eq_one_of_beq` says that one is the only number that equals one, and
`Number.isFinite_of_mul` that a product is finite only if its factors are.
-/

namespace EnergyFormula.Number

open Float.Model UnpackedFloat

/-! ### Taking numbers apart -/

/-- The number of a bit pattern, with the exponent in plain figures. -/
theorem unpack_eq (b : BitVec Format.binary64.numBits) :
    UnpackedFloat.unpack .binary64 b =
      if unpackExponent b = -1#_ then
        if unpackMantissa b = 0#_ then .infinity (.ofBitVec (unpackSign b)) else .notANumber
      else if unpackExponent b = 0#_ then
        if h : unpackMantissa b = 0#_ then .zero (.ofBitVec (unpackSign b))
        else .finite (.ofBitVec (unpackSign b)) (unpackMantissa b).toNat (-1074)
          (by simpa [BitVec.toNat_pos, BitVec.pos_iff_ne_zero])
      else .finite (.ofBitVec (unpackSign b)) (2 ^ 52 + (unpackMantissa b).toNat)
        ((unpackExponent b).toNat - 1075) (by omega) := by
  have ha : (1#1 ++ unpackMantissa b).toNat = 2 ^ 52 + (unpackMantissa b).toNat := by
    rw [BitVec.toNat_append, ← Nat.shiftLeft_add_eq_or_of_lt (unpackMantissa b).isLt]
    rfl
  unfold UnpackedFloat.unpack
  simp only [ha]
  split
  · rfl
  · split
    · rename_i h
      rw [h]; rfl
    · rfl

/-- A number that is taken apart and put together again is the same. -/
theorem pack_unpack_model (m : Float.Model) : Float.Model.pack m.unpack = m := by
  obtain ⟨bits, valid⟩ := m
  have h := pack_unpack_of_valid valid
  simp only [Float.Model.pack, Float.Model.unpack, h]

/-! ### Rounding an exact product -/

theorem targetExponent_unpack {b : BitVec Format.binary64.numBits} {s : Sign} {m : Nat} {e : Int}
    {hm : 0 < m} (h : UnpackedFloat.unpack .binary64 b = .finite s m e hm) :
    Format.binary64.targetExponent (totalExponent m e) = e := by
  have htarget (t : Int) : Format.binary64.targetExponent t = max (t - 53) (-1074) := by
    simp only [Format.targetExponent]; rfl
  have hlt : (unpackMantissa b).toNat < 2 ^ 52 := (unpackMantissa b).isLt
  rw [unpack_eq] at h
  rw [htarget, totalExponent]
  split at h
  · split at h <;> cases h
  · split at h
    · split at h
      · cases h
      · -- a subnormal number has the least exponent
        cases h
        have := (Nat.log2_lt (Nat.ne_of_gt hm)).2 hlt
        omega
    · -- a normal one has a mantissa of 53 bits
      rename_i hz
      cases h
      have hl : (2 ^ 52 + (unpackMantissa b).toNat).log2 = 52 :=
        (Nat.log2_eq_iff (by omega)).2 ⟨by omega, by omega⟩
      have : (unpackExponent b).toNat ≠ 0 := fun h => hz (BitVec.eq_of_toNat_eq h)
      omega

/-- Zero bits behind a mantissa are shifted out without a trace. -/
theorem shiftRight_mul_pow (m k : Nat) :
    ExtendedMantissa.mk (m * 2 ^ k) false false >>> k = ⟨m, false, false⟩ := by
  induction k generalizing m with
  | zero => rw [Nat.pow_zero, Nat.mul_one]; rfl
  | succ k ih =>
    have hp : m * 2 ^ (k + 1) = m * 2 * 2 ^ k := by rw [Nat.pow_succ', Nat.mul_assoc]
    calc ExtendedMantissa.mk (m * 2 ^ (k + 1)) false false >>> (k + 1)
        = (ExtendedMantissa.mk (m * 2 ^ (k + 1)) false false >>> k).shiftRightOne := rfl
      _ = ⟨m, false, false⟩ := by
        rw [hp, ih]
        simp [ExtendedMantissa.shiftRightOne]

theorem log2_mul_two_pow {m : Nat} (hm : 0 < m) (k : Nat) :
    (m * 2 ^ k).log2 = m.log2 + k := by
  have hlo := Nat.mul_le_mul_right (2 ^ k) (Nat.log2_self_le (Nat.ne_of_gt hm))
  have hhi := Nat.mul_lt_mul_of_pos_right (Nat.lt_log2_self (n := m)) (Nat.two_pow_pos k)
  rw [← Nat.pow_add] at hlo hhi
  refine (Nat.log2_eq_iff ?_).2 ⟨hlo, ?_⟩
  · exact Nat.ne_of_gt (Nat.mul_pos hm (Nat.two_pow_pos k))
  · rwa [Nat.add_right_comm]

/-- A mantissa with zero bits behind it is rounded to itself. -/
theorem roundWithAccuracy_mul_pow (s : Sign) (m k : Nat) (e : Int) (hm : 0 < m)
    (ht : Format.binary64.targetExponent (totalExponent m e) = e) :
    roundWithAccuracy .binary64 s (m * 2 ^ k) (e - k) .exact = .finite s m e hm := by
  have htotal : totalExponent (m * 2 ^ k) (e - k) = totalExponent m e := by
    have := log2_mul_two_pow hm k
    simp only [totalExponent]
    omega
  -- the first shift takes the zero bits away
  have h1 : shiftToTargetExponent .binary64 (m * 2 ^ k) (e - k) .exact
      = (⟨m, false, false⟩, e) := by
    rw [shiftToTargetExponent, htotal, ht, shiftToExponent]
    have hk : (e - (e - k)).toNat = k := by omega
    simp only [ExtendedMantissa.ofMantissaAndAccuracy, hk, shiftRight_mul_pow]
    congr 1
    omega
  -- the second one has nothing left to do
  have h2 : shiftToTargetExponent .binary64 m e .exact = (⟨m, false, false⟩, e) := by
    rw [shiftToTargetExponent, ht, shiftToExponent, Int.sub_self]
    simp only [ExtendedMantissa.ofMantissaAndAccuracy]
    rw [Int.toNat_zero, Int.natCast_zero, Int.add_zero]
    rfl
  have hr : (ExtendedMantissa.mk m false false).roundedMantissa = m := rfl
  simp only [roundWithAccuracy, h1, hr, h2]
  rw [dif_neg (by omega)]

/-! ### One -/

theorem unpack_one :
    (1 : Float).toModel.unpack = .finite .positive (2 ^ 52) (-52) (by decide) := rfl

theorem unpack_mul_one (x : Float.Model) :
    UnpackedFloat.mul .binary64 x.unpack (.finite .positive (2 ^ 52) (-52) (by decide))
      = x.unpack := by
  cases h : x.unpack with
  | infinity s => cases s <;> rfl
  | notANumber => rfl
  | zero s => cases s <;> rfl
  | finite s m e hm =>
    have hs : s * .positive = s := by cases s <;> rfl
    simp only [UnpackedFloat.mul, hs]
    exact roundWithAccuracy_mul_pow s m 52 e hm (targetExponent_unpack h)

/-- Multiplication by one changes no number. -/
protected theorem mul_one (x : Float) : x * 1 = x := by
  obtain ⟨m⟩ := x
  have h : m * (1 : Float).toModel = m := by
    calc m * (1 : Float).toModel
        = .pack (UnpackedFloat.mul .binary64 m.unpack (1 : Float).toModel.unpack) := rfl
      _ = .pack m.unpack := by rw [unpack_one, unpack_mul_one]
      _ = m := pack_unpack_model m
  exact congrArg Float.ofModel h

protected theorem mul_comm (x y : Float) : x * y = y * x := by
  have hs (s t : Sign) : s * t = t * s := by cases s <;> cases t <;> rfl
  have hu (u v : UnpackedFloat) :
      UnpackedFloat.mul .binary64 u v = UnpackedFloat.mul .binary64 v u := by
    cases u <;> cases v <;> simp only [UnpackedFloat.mul, hs, Nat.mul_comm, Int.add_comm]
  obtain ⟨a⟩ := x
  obtain ⟨b⟩ := y
  exact congrArg (fun u => Float.ofModel (.pack u)) (hu a.unpack b.unpack)

protected theorem one_mul (x : Float) : 1 * x = x := by
  rw [Number.mul_comm, Number.mul_one]

theorem isFinite_one : (1 : Float).isFinite = true := rfl

/-- One is the only number that equals one. -/
theorem eq_one_of_beq {x : Float} (h : (x == 1) = true) : x = 1 := by
  obtain ⟨_, _, h | ⟨_, h⟩ | ⟨_, h⟩⟩ := Float.beq_iff_ne_nan_and_eq.1 h
  · exact h
  -- the zeros are equal to each other only
  · exact absurd (congrArg Float.toBits h) (by decide)
  · exact absurd (congrArg Float.toBits h) (by decide)

/-! ### Products that are finite -/

/-- Neither an infinite product nor one that is no number is finite. -/
theorem isFinite_mul_eq_false (a : Float.Model) {u : UnpackedFloat}
    (hu : u = .notANumber ∨ ∃ s, u = .infinity s) :
    (Float.Model.pack (UnpackedFloat.mul .binary64 u a.unpack)).isFinite = false := by
  have hinf (s : Sign) : (Float.Model.pack (.infinity s)).isFinite = false := by cases s <;> rfl
  have hnan : (Float.Model.pack .notANumber).isFinite = false := rfl
  rcases hu with rfl | ⟨s, rfl⟩
  · exact hnan
  · cases a.unpack with
    | notANumber => exact hnan
    | infinity t => exact hinf (s * t)
    | zero t => exact hnan
    | finite t m e hm => exact hinf (s * t)

/-- The first factor of a finite product is finite. -/
theorem isFinite_of_mul {x y : Float} (h : (x * y).isFinite = true) : x.isFinite = true := by
  replace h : (Float.Model.pack
      (UnpackedFloat.mul .binary64 x.toModel.unpack y.toModel.unpack)).isFinite = true := h
  change x.toModel.unpack.isFinite = true
  cases hx : x.toModel.unpack with
  | notANumber =>
    rw [hx, isFinite_mul_eq_false y.toModel (.inl rfl)] at h
    cases h
  | infinity s =>
    rw [hx, isFinite_mul_eq_false y.toModel (.inr ⟨s, rfl⟩)] at h
    cases h
  | zero s => rfl
  | finite s m e hm => rfl

end EnergyFormula.Number
