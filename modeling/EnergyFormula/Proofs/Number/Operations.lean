import EnergyFormula.Proofs.Number.Nearest

/-!
# Operations are rounded correctly

Products, quotients, sums and differences of positive numbers are what the exact result is rounded
to (`roundsTo_mul`, `roundsTo_div`, `roundsTo_add`, `roundsTo_sub`), and so are natural numbers
(`roundsTo_ofNat`) and decimals (`roundsTo_ofScientific_false`, `roundsTo_ofScientific_true`).  A
decimal takes one of two ways: digits and power of ten are both exact and are combined once, or
their product or quotient is rounded as it stands.
-/

namespace EnergyFormula.Number

open Float.Model UnpackedFloat

/-! ### Operations -/

section Operations

variable {m n : Magnitude} {a b : Nat} {e f : Int}

/-- A mantissa with enough bits is rounded correctly. -/
theorem roundsTo_exact (hbits : 52 ≤ a.log2 ∨ e ≤ -1074) : RoundsTo (a * 2 ^ e)
    (.ofModel (.pack (roundWithAccuracy .binary64 .positive a e .exact))) := by
  have hround := roundsTo_quotient (a := a) Nat.one_pos (by rwa [Nat.div_one])
  rw [Nat.cast_one, div_one, Nat.div_one, Nat.mod_one] at hround
  exact hround

theorem roundsTo_round (ha : 0 < a) : RoundsTo (a * 2 ^ e)
    (.ofModel (.pack (UnpackedFloat.round .binary64 .positive a e))) := by
  rw [UnpackedFloat.round, decreaseExponent]
  generalize hshift : (e - Format.binary64.targetExponent (totalExponent a e)).toNat = k
  rw [targetExponent_eq, totalExponent] at hshift
  have hlog : (a * 2 ^ k).log2 = a.log2 + k := log2_mul_two_pow ha k
  have hvalue : ((a * 2 ^ k : Nat) : ℚ) * 2 ^ (e - k) = a * 2 ^ e := by
    rw [zpow_sub₀ two_ne_zero, zpow_natCast]
    push_cast
    field_simp
  dsimp only
  rw [Nat.shiftLeft_eq, ← hvalue]
  exact roundsTo_exact (by omega)

theorem Magnitude.Holds.roundWithAccuracy_exact (hm : m.IsCanonical) (h : m.Holds (a * 2 ^ e))
    (hbits : 52 ≤ a.log2 ∨ e ≤ -1074) (s : Sign) :
    UnpackedFloat.roundWithAccuracy .binary64 s a e .exact =
      .finite s m.mantissa m.exponent hm.pos := by
  have hround := Magnitude.Holds.roundWithAccuracy (a := a) hm Nat.one_pos
    (by rwa [Nat.cast_one, div_one]) (by rwa [Nat.div_one]) s
  rw [Nat.div_one, Nat.mod_one] at hround
  exact hround

theorem roundWithAccuracy_exact_of_le (h : (a : ℚ) * 2 ^ e ≤ 2 ^ (-1075 : Int))
    (hbits : 52 ≤ a.log2 ∨ e ≤ -1074) (s : Sign) :
    roundWithAccuracy .binary64 s a e .exact = .zero s := by
  have hround := roundWithAccuracy_of_le (a := a) Nat.one_pos (by rwa [Nat.div_one])
    (by rwa [Nat.cast_one, div_one]) s
  rw [Nat.div_one, Nat.mod_one] at hround
  exact hround

/-- Powers of two are multiplied apart from what stands before them. -/
theorem mul_two_zpow_mul (a b : Nat) (e f : Int) :
    (a : ℚ) * 2 ^ e * (b * 2 ^ f) = (a * b : Nat) * 2 ^ (e + f) := by
  rw [zpow_add₀ two_ne_zero]
  push_cast
  ring

theorem roundsTo_pack_mul (ha : 0 < a) (hb : 0 < b) (hbits : 52 ≤ (a * b).log2 ∨ e + f ≤ -1074) :
    RoundsTo (a * 2 ^ e * (b * 2 ^ f)) (.ofModel (.pack (UnpackedFloat.mul .binary64
      (.finite .positive a e ha) (.finite .positive b f hb)))) := by
  rw [mul_two_zpow_mul]
  exact roundsTo_exact hbits

theorem roundsTo_pack_div (ha : 0 < a) (hb : 0 < b) :
    RoundsTo (a * 2 ^ e / (b * 2 ^ f)) (.ofModel (.pack (UnpackedFloat.div .binary64
      (.finite .positive a e ha) (.finite .positive b f hb)))) := by
  show RoundsTo _ (.ofModel (.pack (roundWithAccuracy .binary64 (.positive / .positive)
    (divCore .binary64 a e b f).1 (divCore .binary64 a e b f).2.1 (divCore .binary64 a e b f).2.2)))
  unfold divCore
  dsimp only
  rw [targetExponent_eq, totalExponent, totalExponent]
  generalize hl : min (e - f) (max (a.log2 + 1 + e - (b.log2 + 1 + f) - 53) (-1074)) = l
  generalize hk : (e - f - l).toNat = k
  have hbits := bits_quotient ha hb hl hk
  rw [Nat.shiftLeft_eq] at hbits ⊢
  have hvalue : ((a * 2 ^ k : Nat) : ℚ) / b * 2 ^ l = a * 2 ^ e / (b * 2 ^ f) := by
    have hb' : (b : ℚ) ≠ 0 := Nat.cast_ne_zero.2 (Nat.ne_of_gt hb)
    have hexponent : l = e - f - k := by omega
    rw [hexponent, zpow_sub₀ two_ne_zero, zpow_sub₀ two_ne_zero, zpow_natCast]
    push_cast
    field_simp
  rw [← hvalue]
  exact roundsTo_quotient hb hbits

theorem Magnitude.IsCanonical.log2_mantissa (hm : m.IsCanonical) :
    m.mantissa.log2 = 52 ∨ m.exponent = -1074 :=
  hm.normal.imp_left fun hnormal => (Nat.log2_eq_iff hm.pos.ne').2 ⟨hnormal, hm.bits⟩

/-- A product has enough bits to be rounded. -/
theorem Magnitude.IsCanonical.bits_mul (hm : m.IsCanonical) (hn : n.IsCanonical) :
    52 ≤ (m.mantissa * n.mantissa).log2 ∨ m.exponent + n.exponent ≤ -1074 := by
  have hlog := (log2_mul_mem hm.pos hn.pos).1
  rcases hm.log2_mantissa with hm' | hm'
  · omega
  · rcases hn.log2_mantissa with hn' | hn' <;> omega

/-- A product is rounded correctly. -/
theorem roundsTo_mul (hm : m.IsCanonical) (hn : n.IsCanonical) :
    RoundsTo (m.value * n.value) (m.stored hm * n.stored hn) := by
  show RoundsTo _ (.ofModel (.pack (UnpackedFloat.mul .binary64 (m.stored hm).toModel.unpack
    (n.stored hn).toModel.unpack)))
  rw [m.unpack_stored hm, n.unpack_stored hn]
  exact roundsTo_pack_mul hm.pos hn.pos (hm.bits_mul hn)

/-- A quotient is rounded correctly. -/
theorem roundsTo_div (hm : m.IsCanonical) (hn : n.IsCanonical) :
    RoundsTo (m.value / n.value) (m.stored hm / n.stored hn) := by
  show RoundsTo _ (.ofModel (.pack (UnpackedFloat.div .binary64 (m.stored hm).toModel.unpack
    (n.stored hn).toModel.unpack)))
  rw [m.unpack_stored hm, n.unpack_stored hn]
  exact roundsTo_pack_div hm.pos hn.pos

/-- A whole mantissa that is not negative is rounded correctly; zero is stored without a sign. -/
theorem roundsTo_normalize {d : Int} (hd : 0 ≤ d) : RoundsTo (d * 2 ^ e)
    (.ofModel (.pack (UnpackedFloat.normalize .binary64 d e .positive))) := by
  obtain ⟨a, rfl⟩ := Int.eq_ofNat_of_zero_le hd
  unfold UnpackedFloat.normalize
  rcases Nat.eq_zero_or_pos a with rfl | ha
  · rw [compare_eq_iff_eq.2 Nat.cast_zero, Nat.cast_zero, Int.cast_zero, zero_mul]
    exact .zero (zpow_pos two_pos _).le
  · rw [compare_gt_iff_gt.2 (Int.natCast_pos.2 ha), Int.cast_natCast]
    dsimp only
    rw [Int.toNat_natCast]
    exact roundsTo_round ha

/-- A magnitude with its mantissa brought to a lesser exponent. -/
theorem Magnitude.value_shiftLeft {l : Int} (hl : l ≤ m.exponent) :
    ((m.mantissa <<< (m.exponent - l).toNat : Nat) : ℚ) * 2 ^ l = m.value := by
  have hexponent : m.exponent = (m.exponent - l).toNat + l := by omega
  unfold Magnitude.value
  conv_rhs => rw [hexponent, zpow_add₀ two_ne_zero, zpow_natCast]
  rw [Nat.shiftLeft_eq]
  push_cast
  ring

/-- A sum is rounded correctly. -/
theorem roundsTo_add (hm : m.IsCanonical) (hn : n.IsCanonical) :
    RoundsTo (m.value + n.value) (m.stored hm + n.stored hn) := by
  show RoundsTo _ (.ofModel (.pack (UnpackedFloat.add .binary64 (m.stored hm).toModel.unpack
    (n.stored hn).toModel.unpack)))
  rw [m.unpack_stored hm, n.unpack_stored hn]
  -- both mantissas are brought to the lesser exponent
  have hround := roundsTo_normalize (e := min m.exponent n.exponent)
    (Int.natCast_nonneg (m.mantissa <<< (m.exponent - min m.exponent n.exponent).toNat +
      n.mantissa <<< (n.exponent - min m.exponent n.exponent).toNat))
  rw [Int.cast_natCast, Nat.cast_add, add_mul, Magnitude.value_shiftLeft (min_le_left _ _),
    Magnitude.value_shiftLeft (min_le_right _ _)] at hround
  exact hround

/-- A difference that is not negative is rounded correctly. -/
theorem roundsTo_sub (hm : m.IsCanonical) (hn : n.IsCanonical) (hle : n.value ≤ m.value) :
    RoundsTo (m.value - n.value) (m.stored hm - n.stored hn) := by
  show RoundsTo _ (.ofModel (.pack (UnpackedFloat.sub .binary64 (m.stored hm).toModel.unpack
    (n.stored hn).toModel.unpack)))
  rw [m.unpack_stored hm, n.unpack_stored hn]
  have hm' := m.value_shiftLeft (min_le_left m.exponent n.exponent)
  have hn' := n.value_shiftLeft (min_le_right m.exponent n.exponent)
  have hpos : (0 : ℚ) < 2 ^ min m.exponent n.exponent := zpow_pos two_pos _
  rw [← hm', ← hn', mul_le_mul_iff_left₀ hpos, Nat.cast_le] at hle
  have hround := roundsTo_normalize (e := min m.exponent n.exponent)
    (Int.sub_nonneg_of_le (Int.ofNat_le.2 hle))
  rw [Int.cast_sub, Int.cast_natCast, Int.cast_natCast, sub_mul, hm', hn'] at hround
  exact hround

end Operations

/-! ### Natural numbers and decimals -/

/-- The number is the natural number. -/
def IsNatural (n : Nat) : UnpackedFloat → Prop
  | .finite .positive m e _ => m * 2 ^ e.toNat = n * 2 ^ (-e).toNat
  | _ => False

instance (n : Nat) (u : UnpackedFloat) : Decidable (IsNatural n u) :=
  match u with
  | .finite .positive m e _ =>
    inferInstanceAs (Decidable (m * 2 ^ e.toNat = n * 2 ^ (-e).toNat))
  | .finite .negative _ _ _ => .isFalse id
  | .zero _ => .isFalse id
  | .infinity _ => .isFalse id
  | .notANumber => .isFalse id

theorem isNatural_power : ∀ k : Fin Float.exactlyRepresentablePowersOfTen.size,
    IsNatural (10 ^ k.val) Float.exactlyRepresentablePowersOfTen[k].toModel.unpack := by
  decide +kernel

theorem IsNatural.value {n m : Nat} {e : Int} {hm : 0 < m}
    (h : IsNatural n (.finite .positive m e hm)) : (m : ℚ) * 2 ^ e = n := by
  have h' : (m : ℚ) * 2 ^ e.toNat = n * 2 ^ (-e).toNat := by exact_mod_cast h
  have hpow : (2 : ℚ) ^ (-e).toNat ≠ 0 := pow_ne_zero _ two_ne_zero
  rw [zpow_eq_div two_ne_zero, ← mul_div_assoc, h', mul_div_cancel_right₀ _ hpow]

theorem IsNatural.eq_finite {n : Nat} {u : UnpackedFloat} (h : IsNatural n u) :
    ∃ m e hm, u = .finite .positive m e hm ∧ (m : ℚ) * 2 ^ e = n := by
  cases u with
  | zero s => exact h.elim
  | infinity s => exact h.elim
  | notANumber => exact h.elim
  | finite s m e hm =>
    cases s with
    | negative => exact h.elim
    | positive => exact ⟨m, e, hm, rfl, h.value⟩

section Naturals

variable {n k : Nat}

/-- The magnitude of a natural number with at most 53 bits. -/
def Magnitude.ofNat (n : Nat) : Magnitude :=
  ⟨n * 2 ^ (52 - n.log2), -(52 - n.log2 : Nat)⟩

theorem Magnitude.isCanonical_ofNat {n : Nat} (hn : 0 < n) (hbits : n < 2 ^ 53) :
    (Magnitude.ofNat n).IsCanonical := by
  have hlog : n.log2 < 53 := (Nat.log2_lt (Nat.ne_of_gt hn)).2 hbits
  have hpos : 0 < n * 2 ^ (52 - n.log2) := Nat.mul_pos hn (Nat.two_pow_pos _)
  have hlog' : (n * 2 ^ (52 - n.log2)).log2 = 52 := by
    rw [log2_mul_two_pow hn]
    omega
  obtain ⟨hlow, hhigh⟩ := (Nat.log2_eq_iff (Nat.ne_of_gt hpos)).1 hlog'
  exact ⟨hpos, hhigh, by dsimp only [ofNat]; omega, .inl hlow, by dsimp only [ofNat]; omega⟩

theorem Magnitude.value_ofNat (n : Nat) : (ofNat n).value = n := by
  show ((n * 2 ^ (52 - n.log2) : Nat) : ℚ) * 2 ^ (-(52 - n.log2 : Nat) : Int) = n
  rw [zpow_neg, zpow_natCast]
  push_cast
  field_simp

theorem roundsTo_toFloat (hbits : n < 2 ^ 53) : RoundsTo n n.toUInt64.toFloat := by
  have hround := roundsTo_normalize (e := 0) (Int.natCast_nonneg n)
  rw [zpow_zero, mul_one, Int.cast_natCast] at hround
  show RoundsTo n (.ofModel (.pack (UnpackedFloat.normalize .binary64 n.toUInt64.toNat 0 .positive)))
  rw [toNat_toUInt64 hbits]
  exact hround

/-- A natural number with at most 53 bits is converted exactly. -/
theorem toFloat_eq_stored (hn : 0 < n) (hbits : n < 2 ^ 53) :
    n.toUInt64.toFloat = (Magnitude.ofNat n).stored (Magnitude.isCanonical_ofNat hn hbits) := by
  have hself := (Magnitude.ofNat n).holds_self
  rw [Magnitude.value_ofNat] at hself
  exact (roundsTo_toFloat hbits).eq_stored _ hself

/-- A natural number is converted correctly. -/
theorem roundsTo_ofNat (n : Nat) : RoundsTo n (Float.ofNat n) := by
  by_cases hbits : n < 2 ^ 53
  · rw [ofNat_of_lt hbits]
    exact roundsTo_toFloat hbits
  · have hvalue : ((n * 2 ^ 53 : Nat) : ℚ) * 2 ^ (-53 : Int) = n := by
      rw [zpow_neg]
      push_cast
      field_simp
    have hlog : (n * 2 ^ 53).log2 = n.log2 + 53 := log2_mul_two_pow (by omega) 53
    have hround := roundsTo_exact (a := n * 2 ^ 53) (e := -53) (.inl (by omega))
    rw [hvalue] at hround
    rwa [ofNat_of_le (Nat.le_of_not_lt hbits)]

/-- A positive number is the stored number of its parts. -/
theorem eq_stored_of_unpack {x : Float} {m : Nat} {e : Int} {hm : 0 < m}
    (h : x.toModel.unpack = .finite .positive m e hm) :
    x = Magnitude.stored ⟨m, e⟩ (isCanonical_of_unpack h) := by
  have hmodel := pack_unpack_model x.toModel
  rw [h] at hmodel
  show x = .ofModel (.pack (.finite .positive m e hm))
  rw [hmodel]

theorem exists_stored_of_isNatural {x : Float} (h : IsNatural n x.toModel.unpack) :
    ∃ (m : Magnitude) (hm : m.IsCanonical), x = m.stored hm ∧ m.value = n := by
  obtain ⟨mantissa, e, hpos, hx, hvalue⟩ := h.eq_finite
  exact ⟨⟨mantissa, e⟩, isCanonical_of_unpack hx, eq_stored_of_unpack hx, hvalue⟩

/-- The powers of ten that are exact. -/
theorem exists_stored_power (hindex : k < Float.exactlyRepresentablePowersOfTen.size) :
    ∃ (m : Magnitude) (hm : m.IsCanonical),
      Float.exactlyRepresentablePowersOfTen[k] = m.stored hm ∧ m.value = (10 ^ k : Nat) :=
  exists_stored_of_isNatural (isNatural_power ⟨k, hindex⟩)

/-- Without decimal places a decimal that is not small is read by one multiplication, of a mantissa
with room for all bits of the product. -/
theorem ofScientific_natCast (hn : 0 < n) (hpos : 0 < n * 2 ^ 53) (hten : 0 < 10 ^ k)
    (hk : k ≤ 2048) :
    UnpackedFloat.ofScientific .binary64 n (k : Int) =
      UnpackedFloat.mul .binary64 (.finite .positive (n * 2 ^ 53) (-53) hpos)
        (.finite .positive (10 ^ k) 0 hten) := by
  have hexponent : (2 : Int) ^ Format.binary64.exponentBits = 2048 := rfl
  unfold UnpackedFloat.ofScientific
  rw [dif_neg (Nat.ne_of_gt hn), hexponent, if_neg (by omega), if_neg (by omega),
    if_pos (by omega)]
  simp only [Int.toNat_natCast, ← Nat.shiftLeft_eq]
  rfl

/-- With decimal places it is read by one division. -/
theorem ofScientific_neg (hn : 0 < n) (hten : 0 < 10 ^ k) (hk : 0 < k)
    (hsmall : k ≤ 2048 + n.log2) :
    UnpackedFloat.ofScientific .binary64 n (-(k : Int)) =
      UnpackedFloat.div .binary64 (.finite .positive n 0 hn)
        (.finite .positive (10 ^ k) 0 hten) := by
  have hexponent : (2 : Int) ^ Format.binary64.exponentBits = 2048 := rfl
  unfold UnpackedFloat.ofScientific
  rw [dif_neg (Nat.ne_of_gt hn), hexponent, if_neg (by omega), if_neg (by omega),
    if_neg (by omega)]
  simp only [neg_neg, Int.toNat_natCast]

/-- A decimal without decimal places is read correctly. -/
theorem roundsTo_ofScientific_false (hn : 0 < n) (hk : k ≤ 2048) :
    RoundsTo (n * 10 ^ k) (Float.ofScientific n false k) := by
  unfold Float.ofScientific
  by_cases hfast : n < 2 ^ 53 ∧ k ≤ 22
  · -- the number and the power of ten are floats themselves
    rw [dif_pos hfast]
    dsimp only
    rw [if_neg Bool.false_ne_true]
    obtain ⟨p, hp, hpower, hvalue⟩ := exists_stored_power (Nat.lt_succ_of_le hfast.2)
    have hround := roundsTo_mul (Magnitude.isCanonical_ofNat hn hfast.1) hp
    rw [Magnitude.value_ofNat, hvalue, ← toFloat_eq_stored hn hfast.1, ← hpower, Nat.cast_pow]
      at hround
    exact hround
  · rw [dif_neg hfast]
    dsimp only
    rw [if_neg Bool.false_ne_true]
    have hten : 0 < 10 ^ k := Nat.pow_pos (by decide)
    have hpos : 0 < n * 2 ^ 53 := Nat.mul_pos hn (Nat.two_pow_pos 53)
    have hvalue : (n : ℚ) * 10 ^ k =
        (n * 2 ^ 53 : Nat) * 2 ^ (-53 : Int) * ((10 ^ k : Nat) * 2 ^ (0 : Int)) := by
      rw [zpow_zero, mul_one, zpow_neg]
      push_cast
      field_simp
    have hlog := (log2_mul_mem hpos hten).1
    have hlog' : (n * 2 ^ 53).log2 = n.log2 + 53 := log2_mul_two_pow hn 53
    show RoundsTo _ (.ofModel (.pack (UnpackedFloat.ofScientific .binary64 n (k : Int))))
    rw [ofScientific_natCast hn hpos hten hk, hvalue]
    exact roundsTo_pack_mul hpos hten (.inl (by omega))

/-- A decimal with decimal places is read correctly. -/
theorem roundsTo_ofScientific_true (hn : 0 < n) (hk : 0 < k) (hsmall : k ≤ 2048 + n.log2) :
    RoundsTo (n / 10 ^ k) (Float.ofScientific n true k) := by
  unfold Float.ofScientific
  by_cases hfast : n < 2 ^ 53 ∧ k ≤ 22
  · rw [dif_pos hfast]
    dsimp only
    rw [if_pos rfl]
    obtain ⟨p, hp, hpower, hvalue⟩ := exists_stored_power (Nat.lt_succ_of_le hfast.2)
    have hround := roundsTo_div (Magnitude.isCanonical_ofNat hn hfast.1) hp
    rw [Magnitude.value_ofNat, hvalue, ← toFloat_eq_stored hn hfast.1, ← hpower, Nat.cast_pow]
      at hround
    exact hround
  · rw [dif_neg hfast]
    dsimp only
    rw [if_pos rfl]
    have hnegative : Int.negOfNat k = -(k : Int) := Int.negOfNat_eq
    have hten : 0 < 10 ^ k := Nat.pow_pos (by decide)
    have hvalue : (n : ℚ) / 10 ^ k =
        n * 2 ^ (0 : Int) / ((10 ^ k : Nat) * 2 ^ (0 : Int)) := by
      rw [zpow_zero, mul_one, mul_one]
      push_cast
      rfl
    show RoundsTo _ (.ofModel (.pack (UnpackedFloat.ofScientific .binary64 n (Int.negOfNat k))))
    rw [hnegative, ofScientific_neg hn hten hk hsmall, hvalue]
    exact roundsTo_pack_div hn hten

end Naturals

end EnergyFormula.Number
