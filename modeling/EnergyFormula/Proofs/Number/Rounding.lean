import EnergyFormula.Number.Rounding
import EnergyFormula.Proofs.Number.Size

/-!
# Rounding keeps numbers finite

A number that is rounded to decimal places is finite exactly if it was before
(`isFinite_roundHalfAway`), whatever the number of places.  The decimals on the way stay below
`2^96` (`Scaled.IsSmall`): a larger number has no decimal places, as the shortest decimal of a whole
number has none (`exponent_lt_of_shortest`).
-/

namespace EnergyFormula.Number

open Float.Model UnpackedFloat

/-! ### Magnitudes -/

theorem toNat_unpackMantissa (b : BitVec Format.binary64.numBits) :
    (unpackMantissa b).toNat = b.toNat % 2 ^ 52 := by
  unfold unpackMantissa
  rw [BitVec.toNat_cast, BitVec.extractLsb_toNat]
  show (b.toNat >>> 0) % 2 ^ 52 = _
  rw [Nat.shiftRight_zero]

theorem toNat_unpackExponent (b : BitVec Format.binary64.numBits) :
    (unpackExponent b).toNat = b.toNat / 2 ^ 52 % 2 ^ 11 := by
  unfold unpackExponent
  rw [BitVec.toNat_cast, BitVec.extractLsb_toNat, Nat.shiftRight_eq_div_pow]
  rfl

/-- The magnitude of an unpacked number. -/
def unpackedMagnitude? : UnpackedFloat → Option Magnitude
  | .finite _ m e _ => some ⟨m, e⟩
  | .zero _ => some ⟨0, -1074⟩
  | .infinity _ => none
  | .notANumber => none

theorem unpackedMagnitude?_unpack (b : BitVec Format.binary64.numBits) :
    unpackedMagnitude? (UnpackedFloat.unpack .binary64 b) =
      if (unpackExponent b).toNat = 2047 then none
      else if (unpackExponent b).toNat = 0 then some ⟨(unpackMantissa b).toNat, -1074⟩
      else some ⟨(unpackMantissa b).toNat + 2 ^ 52, ((unpackExponent b).toNat : Int) - 1075⟩ := by
  rw [unpack_eq]
  by_cases hfinite : unpackExponent b = -1#_
  · have htop : (unpackExponent b).toNat = 2047 := congrArg BitVec.toNat hfinite
    rw [if_pos hfinite, if_pos htop]
    split <;> rfl
  have htop : (unpackExponent b).toNat ≠ 2047 := fun h => hfinite (BitVec.eq_of_toNat_eq h)
  rw [if_neg hfinite, if_neg htop]
  by_cases hnormal : unpackExponent b = 0#_
  · have hleast : (unpackExponent b).toNat = 0 := congrArg BitVec.toNat hnormal
    rw [if_pos hnormal, if_pos hleast]
    by_cases hzero : unpackMantissa b = 0#_
    · rw [dif_pos hzero, hzero]
      rfl
    · rw [dif_neg hzero]
      rfl
  · have hleast : (unpackExponent b).toNat ≠ 0 := fun h => hnormal (BitVec.eq_of_toNat_eq h)
    rw [if_neg hnormal, if_neg hleast]
    exact congrArg (fun m => some (Magnitude.mk m _)) (Nat.add_comm _ _)

/-- The magnitude of a number is that of its parts. -/
theorem magnitude?_eq (x : Float) : magnitude? x = unpackedMagnitude? x.toModel.unpack := by
  have hmantissa : fractionBits x = (@unpackMantissa .binary64 x.toModel.toBits.toBitVec).toNat :=
    (toNat_unpackMantissa _).symm
  have hexponent : exponentBits x = (@unpackExponent .binary64 x.toModel.toBits.toBitVec).toNat :=
    (toNat_unpackExponent _).symm
  unfold magnitude? Float.Model.unpack
  rw [unpackedMagnitude?_unpack, hmantissa, hexponent]
  rfl

/-- A number has a magnitude exactly if it is finite. -/
theorem magnitude?_isSome (x : Float) : (magnitude? x).isSome = x.isFinite := by
  show (magnitude? x).isSome = x.toModel.unpack.isFinite
  rw [magnitude?_eq]
  cases x.toModel.unpack <;> rfl

theorem exists_magnitude?_eq {x : Float} (hx : x.isFinite = true) :
    ∃ m, magnitude? x = some m := by
  rwa [← Option.isSome_iff_exists, magnitude?_isSome]

theorem magnitude?_eq_none {x : Float} (hx : x.isFinite = false) : magnitude? x = none := by
  rwa [← Option.isNone_iff_eq_none, ← Option.isSome_eq_false_iff, magnitude?_isSome]

/-- The magnitude of a number below a bound. -/
theorem Below.magnitude? {bound : Int} {x : Float} (h : Below bound x) :
    ∃ m, Number.magnitude? x = some m ∧ m.mantissa < 2 ^ 53 ∧
      (m.mantissa = 0 ∨ m.exponent + 53 ≤ bound) := by
  rw [magnitude?_eq]
  obtain ⟨s, hu⟩ | ⟨s, m, e, hm, hu, hbits, -, hbound⟩ := FitsBelow.cases h
  · rw [hu]
    exact ⟨_, rfl, by decide, .inl rfl⟩
  · rw [hu]
    exact ⟨_, rfl, hbits, .inr hbound⟩

/-! ### Shortest decimals -/

/-- Two to a power of four, one half and so on: both parts of a power of two with any exponent. -/
theorem four_mul_scale (e : Int) :
    4 * 2 ^ (e - 2).toNat * 2 ^ (-e).toNat = 2 ^ e.toNat * 2 ^ (2 - e).toNat := by
  have hfour : (4 : Nat) = 2 ^ 2 := rfl
  rw [hfour, ← Nat.pow_add, ← Nat.pow_add, ← Nat.pow_add]
  congr 1
  omega

theorem Magnitude.cell_middle_mem {m : Magnitude} (hm : 0 < m.mantissa) :
    m.cell.low < m.cell.middle ∧ m.cell.middle < m.cell.high := by
  have hscale : 0 < 2 ^ (m.exponent - 2).toNat := Nat.two_pow_pos _
  constructor
  · refine Nat.mul_lt_mul_of_pos_right ?_ hscale
    split <;> omega
  · exact Nat.mul_lt_mul_of_pos_right (by omega) hscale

/-- A cell holds its middle, wherever that is a point of the grid. -/
theorem Cell.contains_of_middle {cell : Cell} (h : cell.low < cell.middle ∧ cell.middle < cell.high)
    {k : Int} {c : Nat} (hc : c * (cell.unit * 10 ^ k.toNat) = cell.middle * 10 ^ (-k).toNat) :
    cell.contains k c = true := by
  have hscale : 0 < 10 ^ (-k).toNat := Nat.pow_pos (by decide)
  have hlow := Nat.mul_lt_mul_of_pos_right h.1 hscale
  have hhigh := Nat.mul_lt_mul_of_pos_right h.2 hscale
  rw [← hc] at hlow hhigh
  unfold Cell.contains
  split
  · exact Bool.and_eq_true_iff.2 ⟨decide_eq_true hlow.le, decide_eq_true hhigh.le⟩
  · exact Bool.and_eq_true_iff.2 ⟨decide_eq_true hlow, decide_eq_true hhigh⟩

theorem Cell.contains_eq_false_of_point? {cell : Cell} {tie : Tie} {k : Int}
    (h : cell.point? tie k = none) : cell.contains k
      (cell.middle * Nat.pow 10 (-k).toNat / (cell.unit * Nat.pow 10 k.toNat)) = false := by
  unfold Cell.point? at h
  dsimp only at h
  split at h
  · cases h
  · cases h
  · cases h
  · rename_i hbelow _
    exact hbelow

/-- The grid of whole numbers has a point in the cell of a whole number. -/
theorem Magnitude.point?_zero_ne_none {m : Magnitude} (hm : 0 < m.mantissa) (he : 0 ≤ m.exponent)
    (tie : Tie) : m.cell.point? tie 0 ≠ none := by
  have hmiddle : m.mantissa * 2 ^ m.exponent.toNat * m.cell.unit = m.cell.middle := by
    have hscale := four_mul_scale m.exponent
    have hone : (-m.exponent).toNat = 0 := by omega
    rw [hone, Nat.pow_zero, Nat.mul_one] at hscale
    show _ * 2 ^ (2 - m.exponent).toNat = 4 * m.mantissa * 2 ^ (m.exponent - 2).toNat
    rw [Nat.mul_assoc, ← hscale]
    ring
  have hunit : 0 < m.cell.unit := Nat.two_pow_pos _
  have hcontains : m.cell.contains 0 (m.mantissa * 2 ^ m.exponent.toNat) = true := by
    refine Cell.contains_of_middle (m.cell_middle_mem hm) ?_
    show _ * (m.cell.unit * 1) = m.cell.middle * 1
    rw [Nat.mul_one, Nat.mul_one, hmiddle]
  intro hnone
  have hfalse : m.cell.contains 0 (m.cell.middle * 1 / (m.cell.unit * 1)) = false :=
    Cell.contains_eq_false_of_point? hnone
  rw [Nat.mul_one, Nat.mul_one, ← hmiddle, Nat.mul_div_cancel _ hunit, hcontains] at hfalse
  cases hfalse

/-- The search begins on a grid that is coarser than the number. -/
theorem Magnitude.decimalBound_nonneg {m : Magnitude} (he : 0 ≤ m.exponent) :
    0 ≤ m.decimalBound := by
  unfold decimalBound
  omega

/-- The shortest decimal of a whole number has no decimal places. -/
theorem exponent_lt_of_shortest {tie : Tie} {m : Magnitude}
    (h : (shortest tie m).exponent < 0) : 0 < m.mantissa ∧ m.exponent < 0 := by
  unfold shortest at h
  by_cases hzero : m.mantissa = 0
  · rw [if_pos hzero] at h
    exact absurd h (by decide)
  rw [if_neg hzero] at h
  have hpos : 0 < m.mantissa := Nat.pos_of_ne_zero hzero
  refine ⟨hpos, ?_⟩
  by_contra he
  rw [Int.not_lt] at he
  exact m.point?_zero_ne_none hpos he tie
    (Cell.point?_eq_none_of_coarser h (m.decimalBound_nonneg he))

/-- The decimal that is found lies below the upper end of the cell. -/
theorem Cell.coarsest_le {cell : Cell} (h : cell.middle ≤ cell.high) (tie : Tie) :
    ∀ (steps : Nat) (k : Int), (cell.coarsest tie steps k).coefficient *
      (cell.unit * 10 ^ (cell.coarsest tie steps k).exponent.toNat) ≤
        cell.high * 10 ^ (-(cell.coarsest tie steps k).exponent).toNat
  | 0, k => by
    refine (Nat.div_mul_le_self _ _).trans ?_
    exact Nat.mul_le_mul_right _ h
  | steps + 1, k => by
    unfold coarsest
    split
    · rename_i c hc
      have hcontains := Cell.contains_of_point? hc
      unfold Cell.contains at hcontains
      split at hcontains
      · exact of_decide_eq_true (Bool.and_eq_true_iff.1 hcontains).2
      · exact (of_decide_eq_true (Bool.and_eq_true_iff.1 hcontains).2 : _ < _).le
    · exact coarsest_le h tie steps (k - 1)

/-- The shortest decimal with decimal places is at most `2^53`. -/
theorem coefficient_shortest_le {tie : Tie} {m : Magnitude} (hbits : m.mantissa < 2 ^ 53) {n : Nat}
    (h : (shortest tie m).exponent = .negSucc n) :
    (shortest tie m).coefficient ≤ 2 ^ 53 * 10 ^ (n + 1) := by
  obtain ⟨hm, he⟩ := exponent_lt_of_shortest (h ▸ Int.negSucc_lt_zero n)
  have hshortest : shortest tie m = m.cell.coarsest tie 24 m.decimalBound :=
    if_neg (Nat.ne_of_gt hm)
  have hle := Cell.coarsest_le (m.cell_middle_mem hm).2.le tie 24 m.decimalBound
  rw [← hshortest, h] at hle
  have hunit : 2 ^ 3 ≤ m.cell.unit := Nat.pow_le_pow_right (by decide) (by omega)
  have hhigh : m.cell.high ≤ 2 ^ 53 * m.cell.unit := by
    have hscale : (m.exponent - 2).toNat = 0 := by omega
    show (4 * m.mantissa + 2) * 2 ^ (m.exponent - 2).toNat ≤ _
    rw [hscale, Nat.pow_zero]
    omega
  have hpoint : (shortest tie m).coefficient * (m.cell.unit * 1) ≤
      m.cell.high * 10 ^ (n + 1) := hle
  refine Nat.le_of_mul_le_mul_left ?_ (Nat.lt_of_lt_of_le (by decide) hunit)
  calc m.cell.unit * (shortest tie m).coefficient
      = (shortest tie m).coefficient * (m.cell.unit * 1) := by rw [Nat.mul_one, Nat.mul_comm]
    _ ≤ m.cell.high * 10 ^ (n + 1) := hpoint
    _ ≤ 2 ^ 53 * m.cell.unit * 10 ^ (n + 1) := Nat.mul_le_mul_right _ hhigh
    _ = m.cell.unit * (2 ^ 53 * 10 ^ (n + 1)) := by ring

/-! ### Scaled decimals -/

/-- The decimal has at most 28 places and is at most `2^96`. -/
def Scaled.IsSmall (s : Scaled) : Prop :=
  s.places ≤ Scaled.maxPlaces ∧ s.coefficient ≤ 2 ^ 96 * 10 ^ s.places

theorem roundedQuotient_le {a b c : Nat} (hb : 0 < b) (h : a ≤ c * b) :
    roundedQuotient a b ≤ c := by
  unfold roundedQuotient
  refine Nat.le_of_lt_succ ((Nat.div_lt_iff_lt_mul (by omega)).2 ?_)
  have hsucc : (c + 1) * (2 * b) = 2 * (c * b) + 2 * b := by ring
  rw [Nat.succ_eq_add_one, hsucc]
  omega

theorem Scaled.coefficient_toPlaces_le {s : Scaled} {bound : Nat}
    (h : s.coefficient ≤ bound * 10 ^ s.places) (places : Nat) :
    (s.toPlaces places).coefficient ≤ bound * 10 ^ (s.toPlaces places).places := by
  unfold toPlaces
  split
  · rename_i hlt
    refine roundedQuotient_le (Nat.pow_pos (by decide)) ?_
    have hpow : 10 ^ places * Nat.pow 10 (s.places - places) = 10 ^ s.places := by
      show 10 ^ places * 10 ^ (s.places - places) = _
      rw [← Nat.pow_add, Nat.add_sub_cancel' hlt.le]
    rw [Nat.mul_assoc, hpow]
    exact h
  · exact h

theorem Scaled.IsSmall.toPlaces {s : Scaled} (h : s.IsSmall) (places : Nat) :
    (s.toPlaces places).IsSmall := by
  refine ⟨?_, Scaled.coefficient_toPlaces_le h.2 places⟩
  unfold Scaled.toPlaces
  split
  · rename_i hlt
    exact hlt.le.trans h.1
  · exact h.1

/-- The decimals of stored numbers are small. -/
theorem isSmall_of_scaled? {m : Magnitude} (hbits : m.mantissa < 2 ^ 53) {tie : Tie} {s : Scaled}
    (h : (shortest tie m).scaled? = some s) : s.IsSmall := by
  unfold Decimal.scaled? at h
  split at h
  · rename_i zeros _
    dsimp only at h
    split at h
    · cases h
    · rename_i hlimit
      cases h
      have hbound : Scaled.limit ≤ 2 ^ 96 * 10 ^ 0 := by decide
      exact ⟨Nat.zero_le _, (Nat.le_of_not_lt hlimit).trans hbound⟩
  · rename_i n hexponent
    cases h
    have hle := coefficient_shortest_le hbits hexponent
    refine ⟨Scaled.places_toPlaces_le _ _, Scaled.coefficient_toPlaces_le ?_ _⟩
    exact hle.trans (Nat.mul_le_mul_right _ (by decide))

/-! ### Floats of scaled decimals -/

/-- The powers of ten on the way are at least one, and not large. -/
theorem power_of_places : ∀ places ≤ Scaled.maxPlaces,
    AtLeastOne (Float.ofNat (10 ^ places)).toModel.unpack ∧
      AtLeastOne (powerBySquaring places 1 10).toModel.unpack ∧
        FitsBelow 95 (powerBySquaring places 1 10).toModel.unpack := by
  decide +kernel

theorem Below.withSign {bound : Int} (hle : bound ≤ 1024) {x : Float} (h : Below bound x)
    (negative : Bool) : Below bound (withSign negative x) := by
  cases negative with
  | true => exact h.neg hle
  | false => exact h

/-- Rounding to a whole number adds at most one bit. -/
theorem Below.roundToWhole {k : Nat} (hk : 53 ≤ k) (hle : k + 1 ≤ 1024) {x : Float}
    (h : Below k x) : Below (k + 1) (roundToWhole x) := by
  obtain ⟨m, hm, hbits, hexponent⟩ := h.magnitude?
  have hnumerator : m.numerator < 2 ^ k := by
    show m.mantissa * 2 ^ m.exponent.toNat < 2 ^ k
    rcases hexponent with hzero | hexponent
    · rw [hzero, Nat.zero_mul]
      exact Nat.two_pow_pos k
    · calc m.mantissa * 2 ^ m.exponent.toNat < 2 ^ 53 * 2 ^ m.exponent.toNat :=
            Nat.mul_lt_mul_of_pos_right hbits (Nat.two_pow_pos _)
        _ = 2 ^ (53 + m.exponent.toNat) := (Nat.pow_add _ _ _).symm
        _ ≤ 2 ^ k := Nat.pow_le_pow_right (by decide) (by omega)
  have hrounded : m.rounded < 2 ^ k := by
    have hpos : 0 < m.denominator := Nat.two_pow_pos _
    exact (roundedQuotient_le hpos (Nat.le_mul_of_pos_right _ hpos)).trans_lt hnumerator
  unfold Number.roundToWhole
  rw [hm]
  exact (below_ofNat hrounded (by omega) (by omega)).withSign (by omega) _

/-- The float of a small decimal is finite. -/
theorem Scaled.IsSmall.below_toFloat {s : Scaled} (h : s.IsSmall) : Below 200 s.toFloat := by
  obtain ⟨hplaces, hcoefficient⟩ := h
  obtain ⟨hunit, hpower, hpowerBelow⟩ := power_of_places s.places hplaces
  unfold Scaled.toFloat
  by_cases hzero : s.places = 0
  · rw [if_pos hzero]
    rw [hzero, Nat.pow_zero, Nat.mul_one] at hcoefficient
    exact below_ofNat (hcoefficient.trans_lt (by decide : 2 ^ 96 < 2 ^ 97)) (by decide) (by decide)
  rw [if_neg hzero]
  have hten : 0 < 10 ^ s.places := Nat.pow_pos (by decide)
  -- both parts stay far below the greatest float, and so does each step from there
  have hwhole : Below 98 (Float.ofNat (s.coefficient / 10 ^ s.places)) := by
    have hle : s.coefficient / 10 ^ s.places ≤ 2 ^ 96 := Nat.div_le_of_le_mul (by
      rw [Nat.mul_comm]
      exact hcoefficient)
    exact below_ofNat (hle.trans_lt (by decide : 2 ^ 96 < 2 ^ 97)) (by decide) (by decide)
  have hfraction : Below 99 (Float.ofNat (s.coefficient % 10 ^ s.places) /
      Float.ofNat (10 ^ s.places)) := by
    have hlt : s.coefficient % 10 ^ s.places < 2 ^ 97 :=
      (Nat.mod_lt _ hten).trans_le ((Nat.pow_le_pow_right (by decide) hplaces).trans (by decide))
    exact (below_ofNat hlt (by decide) (by decide : (98 : Int) ≤ 1024)).div hunit (by decide)
      (by decide) (by decide)
  dsimp only
  split
  · exact hwhole.mono (by decide)
  · have hsum := (hwhole.mono (by decide : (98 : Int) ≤ 99)).add hfraction (by decide)
      (by decide : (99 + 1 : Int) < 101) (by decide)
    have hproduct := hsum.mul hpowerBelow (by decide) (by decide : (101 + 95 : Int) < 197)
      (by decide)
    have hrounded := Below.roundToWhole (k := 197) (by decide) (by decide) hproduct
    exact hrounded.div hpower (by decide) (by decide) (by decide)

/-! ### Main result -/

/-- A number that is rounded to decimal places is finite exactly if it was before. -/
theorem isFinite_roundHalfAway (x : Float) (places : Nat) :
    (roundHalfAway x places).isFinite = x.isFinite := by
  by_cases hx : x.isFinite = true
  · obtain ⟨m, hm, hbits, _⟩ := (isFinite_iff_below.1 hx).magnitude?
    rw [hx]
    unfold roundHalfAway
    rw [hm]
    dsimp only
    split
    · exact hx
    · rename_i s hs
      split
      · rfl
      · have hsmall := (isSmall_of_scaled? hbits hs).toPlaces places
        exact (hsmall.below_toFloat.withSign (by decide) _).isFinite (by decide)
  · rw [roundHalfAway_of_not_finite (magnitude?_eq_none (Bool.not_eq_true _ ▸ hx))]

end EnergyFormula.Number
