import EnergyFormula.Number.Text
import EnergyFormula.Proofs.Number.Decimal

/-!
# Numbers read back from their text

A finite number is written with a decimal in its cell, in one form or another, and every decimal of
this size is read as the number (`withSign_toFloat_of_value`).  So a text that is such a decimal,
behind a sign, denotes the number (`Spells`):

* `readTrimmed?_plain`: the plain text of a finite number reads back as the same number.
* `readTrimmed?_plain_of_not_isFinite`: that of any other number is read as one that is not finite
  either.
-/

namespace EnergyFormula.Number

open Text Float.Model UnpackedFloat

/-! ### Decimals as text -/

namespace Decimal

/-- The decimal without an exponent above zero: its zeros are written out. -/
def written (d : Decimal) : Decimal :=
  ⟨d.coefficient * 10 ^ d.exponent.toNat, min d.exponent 0⟩

theorem value_written (d : Decimal) : d.written.value = d.value := by
  show ((d.coefficient * 10 ^ d.exponent.toNat : Nat) : ℚ) * 10 ^ min d.exponent 0 =
    d.coefficient * 10 ^ d.exponent
  have hexponent : d.exponent = (d.exponent.toNat : Int) + min d.exponent 0 := by omega
  conv_rhs => rw [hexponent, zpow_add₀ (by norm_num), zpow_natCast]
  push_cast
  ring

/-- The text begins with a digit and is read as the decimal. -/
structure IsReadFrom (d : Decimal) (s : List Char) : Prop where
  head : ∃ x rest, s = x :: rest ∧ isDigit x = true
  read : readDecimal? s = some d

variable {whole fraction tail : List Char} {e : Int}

/-- What is read as an exponent begins neither with a digit nor with a point. -/
theorem head_of_readExponent? (h : readExponent? tail = some e) :
    ∀ x ∈ tail.head?, isDigit x = false ∧ x ≠ '.' := by
  intro x hx
  cases tail with
  | nil => cases hx
  | cons y rest =>
    obtain rfl : y = x := Option.some.inj hx
    dsimp only [readExponent?] at h
    split at h
    · rename_i hexponent
      simp only [Bool.or_eq_true, decide_eq_true_eq] at hexponent
      obtain rfl | rfl := hexponent <;> decide
    · cases h

/-- A row of digits is read as the number that it denotes, times the power of ten behind it. -/
theorem isReadFrom_whole (hne : whole ≠ []) (hwhole : ∀ x ∈ whole, isDigit x = true)
    (htail : readExponent? tail = some e) : IsReadFrom ⟨digitsValue whole, e⟩ (whole ++ tail) := by
  have hhead := head_of_readExponent? htail
  have hspan : spanDigits (whole ++ tail) = (whole, tail) :=
    spanDigits_of_digits hwhole fun x hx => (hhead x hx).1
  have hsplit : splitFraction tail = ([], tail) := by
    unfold splitFraction
    split
    · exact absurd rfl (hhead '.' rfl).2
    · rfl
  refine ⟨?_, ?_⟩
  · obtain ⟨x, rest, rfl⟩ := List.exists_cons_of_ne_nil hne
    exact ⟨x, rest ++ tail, rfl, hwhole x List.mem_cons_self⟩
  · rw [readDecimal?, hspan]
    dsimp only
    rw [hsplit]
    dsimp only
    rw [if_neg (fun h => hne h.1), htail]
    simp

/-- Behind a point the digits are decimal places. -/
theorem isReadFrom_point (hne : whole ≠ []) (hwhole : ∀ x ∈ whole, isDigit x = true)
    (hfraction : ∀ x ∈ fraction, isDigit x = true) (htail : readExponent? tail = some e) :
    IsReadFrom ⟨digitsValue (whole ++ fraction), e - fraction.length⟩
      (whole ++ '.' :: (fraction ++ tail)) := by
  have hspan : spanDigits (whole ++ '.' :: (fraction ++ tail)) =
      (whole, '.' :: (fraction ++ tail)) :=
    spanDigits_of_digits hwhole (by simp [isDigit])
  have hsplit : splitFraction ('.' :: (fraction ++ tail)) = (fraction, tail) :=
    spanDigits_of_digits hfraction fun x hx => (head_of_readExponent? htail x hx).1
  refine ⟨?_, ?_⟩
  · obtain ⟨x, rest, rfl⟩ := List.exists_cons_of_ne_nil hne
    exact ⟨x, _, rfl, hwhole x List.mem_cons_self⟩
  · rw [readDecimal?, hspan]
    dsimp only
    rw [hsplit]
    dsimp only
    rw [if_neg (fun h => hne h.1), htail]
    rfl

/-- Digits that nothing follows denote a natural number. -/
theorem isReadFrom_digits (hne : whole ≠ []) (hwhole : ∀ x ∈ whole, isDigit x = true) :
    IsReadFrom ⟨digitsValue whole, 0⟩ whole := by
  have htail : readExponent? [] = some 0 := rfl
  have hread := isReadFrom_whole hne hwhole htail
  rwa [List.append_nil] at hread

/-- Decimal places that nothing follows. -/
theorem isReadFrom_places (hne : whole ≠ []) (hwhole : ∀ x ∈ whole, isDigit x = true)
    (hfraction : ∀ x ∈ fraction, isDigit x = true) :
    IsReadFrom ⟨digitsValue (whole ++ fraction), -(fraction.length : Int)⟩
      (whole ++ '.' :: fraction) := by
  have htail : readExponent? [] = some 0 := rfl
  have hread := isReadFrom_point hne hwhole hfraction htail
  rwa [List.append_nil, Int.zero_sub] at hread

/-- Zeros behind its digits multiply a number by a power of ten. -/
theorem digitsValue_zeros (digits : List Char) (zeros : Nat) :
    digitsValue (digits ++ List.replicate zeros '0') = digitsValue digits * 10 ^ zeros := by
  rw [digitsValue_eq, Nat.ofDigitChars_append, ← digitsValue_eq, Nat.ofDigitChars_replicate_zero,
    Nat.mul_comm]

/-- Without decimal places a positional form is a row of digits. -/
theorem positional_ofNat (c zeros : Nat) : (positional ⟨c, .ofNat zeros⟩) ≠ [] ∧
    (∀ x ∈ positional ⟨c, .ofNat zeros⟩, isDigit x = true) ∧
      digitsValue (positional ⟨c, .ofNat zeros⟩) = c * 10 ^ zeros := by
  have hne : natural c ≠ [] := Nat.toDigits_ne_nil
  unfold positional
  dsimp only
  split
  · rename_i hzero
    exact ⟨hne, fun x hx => isDigit_of_mem_natural hx,
      by rw [digitsValue_natural, hzero, Nat.zero_mul]⟩
  · refine ⟨by simp [hne], fun x hx => ?_, by rw [digitsValue_zeros, digitsValue_natural]⟩
    rcases List.mem_append.1 hx with hx | hx
    · exact isDigit_of_mem_natural hx
    · rw [List.eq_of_mem_replicate hx]
      decide

/-- With decimal places a positional form has a point before so many last digits. -/
theorem exists_positional_negSucc (c n : Nat) : ∃ whole fraction,
    positional ⟨c, .negSucc n⟩ = whole ++ '.' :: fraction ∧ whole ≠ [] ∧
      (∀ x ∈ whole, isDigit x = true) ∧ (∀ x ∈ fraction, isDigit x = true) ∧
        fraction.length = n + 1 ∧ digitsValue (whole ++ fraction) = c := by
  have hlength := le_length_padded (n + 2) c
  have hall : ∀ x ∈ padded (n + 2) c, isDigit x = true := fun x hx => isDigit_of_mem_padded hx
  have hvalue := digitsValue_padded (n + 2) c
  have htext : positional ⟨c, .negSucc n⟩ =
      (padded (n + 2) c).take ((padded (n + 2) c).length - (n + 1)) ++
        '.' :: (padded (n + 2) c).drop ((padded (n + 2) c).length - (n + 1)) := rfl
  generalize padded (n + 2) c = filled at *
  refine ⟨_, _, htext, ?_, fun x hx => hall x (List.mem_of_mem_take hx),
    fun x hx => hall x (List.mem_of_mem_drop hx), ?_, by rw [List.take_append_drop, hvalue]⟩
  · rw [Ne, List.take_eq_nil_iff, not_or]
    exact ⟨by omega, List.ne_nil_of_length_pos (by omega)⟩
  · rw [List.length_drop]
    omega

/-- A positional form is read as the decimal with its zeros written out. -/
theorem isReadFrom_positional (d : Decimal) : d.written.IsReadFrom d.positional := by
  obtain ⟨c, exponent⟩ := d
  cases exponent with
  | ofNat zeros =>
    obtain ⟨hne, hall, hvalue⟩ := positional_ofNat c zeros
    have hread := isReadFrom_digits hne hall
    have hexponent : min (Int.ofNat zeros) 0 = 0 := min_eq_right (Int.natCast_nonneg zeros)
    rwa [hvalue, ← hexponent] at hread
  | negSucc n =>
    obtain ⟨whole, fraction, htext, hne, hwhole, hfraction, hplaces, hvalue⟩ :=
      exists_positional_negSucc c n
    have hread := isReadFrom_places hne hwhole hfraction
    have hwritten : written ⟨c, .negSucc n⟩ = ⟨c, -((n + 1 : Nat) : Int)⟩ := by
      rw [written, Int.toNat_negSucc, pow_zero, Nat.mul_one, min_eq_left (Int.negSucc_lt_zero n).le]
      rfl
    rwa [← htext, hvalue, hplaces, ← hwritten] at hread

/-- There is no blank in a positional form. -/
theorem isBlank_of_mem_positional {d : Decimal} {x : Char} (hx : x ∈ d.positional) :
    isBlank x = false := by
  obtain ⟨c, exponent⟩ := d
  cases exponent with
  | ofNat zeros => exact isBlank_of_isDigit ((positional_ofNat c zeros).2.1 x hx)
  | negSucc n =>
    obtain ⟨whole, fraction, htext, _, hwhole, hfraction, _⟩ := exists_positional_negSucc c n
    rw [htext] at hx
    rcases List.mem_append.1 hx with hx | hx
    · exact isBlank_of_isDigit (hwhole x hx)
    · rcases List.mem_cons.1 hx with rfl | hx
      · decide
      · exact isBlank_of_isDigit (hfraction x hx)

end Decimal

/-! ### Signs -/

section Signs

/-- A minus sign before what is negative. -/
def signChars (negative : Bool) : List Char :=
  if negative then ['-'] else []

theorem toNat_unpackSign (b : BitVec Format.binary64.numBits) :
    (unpackSign b).toNat = b.toNat / 2 ^ 63 := by
  have hlt : b.toNat < 2 ^ 64 := b.isLt
  unfold unpackSign
  rw [BitVec.toNat_cast, BitVec.extractLsb_toNat, Nat.shiftRight_eq_div_pow]
  show b.toNat / 2 ^ 63 % 2 ^ 1 = _
  omega

/-- The sign of a number that is taken apart. -/
def signOf (negative : Bool) : Sign :=
  if negative then .negative else .positive

theorem ofBitVec_unpackSign (x : Float) :
    Sign.ofBitVec (@unpackSign .binary64 x.toModel.toBits.toBitVec) = signOf (isNegative x) := by
  have hsign := toNat_unpackSign x.toModel.toBits.toBitVec
  have hlt : x.toModel.toBits.toBitVec.toNat < 2 ^ 64 := x.toModel.toBits.toBitVec.isLt
  have hnegative : isNegative x = decide (2 ^ 63 ≤ x.toModel.toBits.toBitVec.toNat) := rfl
  rw [hnegative]
  unfold Sign.ofBitVec signOf
  by_cases h : 2 ^ 63 ≤ x.toModel.toBits.toBitVec.toNat
  · have hne : @unpackSign .binary64 x.toModel.toBits.toBitVec ≠ 0#1 := by
      intro hzero
      rw [hzero] at hsign
      have : (0#1).toNat = 0 := rfl
      omega
    rw [if_neg hne, decide_eq_true h, if_pos rfl]
  · have heq : @unpackSign .binary64 x.toModel.toBits.toBitVec = 0#1 := by
      refine BitVec.eq_of_toNat_eq ?_
      rw [hsign]
      show _ = 0
      omega
    rw [if_pos heq, decide_eq_false h, if_neg Bool.false_ne_true]

/-- A finite number has the sign that its bit says. -/
theorem sign_eq {x : Float} :
    (∀ s, x.toModel.unpack = .zero s → s = signOf (isNegative x)) ∧
      ∀ s m e hm, x.toModel.unpack = .finite s m e hm → s = signOf (isNegative x) := by
  rw [← ofBitVec_unpackSign]
  unfold Float.Model.unpack
  rw [unpack_eq]
  constructor
  · intro s h
    split_ifs at h
    cases h
    rfl
  · intro s m e hm h
    split_ifs at h
    · cases h
      rfl
    · cases h
      rfl

end Signs

/-! ### Stored numbers with a sign -/

/-- The stored magnitude with a sign, put together from its parts. -/
theorem pack_signOf {m : Magnitude} (hm : m.IsCanonical) (negative : Bool) :
    Float.ofModel (.pack (.finite (signOf negative) m.mantissa m.exponent hm.pos)) =
      withSign negative (m.stored hm) := by
  cases negative with
  | false => rfl
  | true =>
    show _ = Float.ofModel (.pack (UnpackedFloat.neg (m.stored hm).toModel.unpack))
    rw [m.unpack_stored hm]
    rfl

/-- The stored magnitude of a number with its sign is the number. -/
theorem withSign_stored {x : Float} {s : Sign} {m : Nat} {e : Int} {hm : 0 < m}
    (h : x.toModel.unpack = .finite s m e hm) :
    withSign (isNegative x) (Magnitude.stored ⟨m, e⟩ (isCanonical_of_unpack h)) = x := by
  have hsign := sign_eq.2 s m e hm h
  have hmodel := pack_unpack_model x.toModel
  rw [h, hsign] at hmodel
  rw [← pack_signOf, hmodel]

/-! ### What a text denotes -/

/-- A sign before a digit is taken off. -/
theorem splitSign_signChars (negative : Bool) {c : Char} (hc : isDigit c = true)
    (rest : List Char) : splitSign (signChars negative ++ c :: rest) = (negative, c :: rest) := by
  cases negative with
  | true => rfl
  | false =>
    show splitSign (c :: rest) = _
    unfold splitSign
    split
    · rename_i heq
      cases heq
      cases hc
    · rename_i heq
      cases heq
      cases hc
    · rfl

/-- The text is a decimal behind a sign that denotes the number. -/
def Spells (s : List Char) (x : Float) : Prop :=
  ∃ negative d digits, Decimal.IsReadFrom d digits ∧ s = signChars negative ++ digits ∧
    withSign negative d.toFloat = x

/-- A decimal behind a sign is read as the number that it denotes. -/
theorem Spells.readChars? {s : List Char} {x : Float} (h : Spells s x) :
    readChars? s = some x := by
  obtain ⟨negative, d, digits, hd, rfl, rfl⟩ := h
  obtain ⟨c, rest, rfl, hc⟩ := hd.head
  rw [Number.readChars?, splitSign_signChars negative hc]
  dsimp only
  rw [readUnsigned?, hd.read]
  rfl

/-- A decimal as large as the shortest one of a finite number is read, with the sign of the number,
as the number. -/
theorem withSign_toFloat_of_value {x : Float} {m : Magnitude} (hx : magnitude? x = some m)
    {tie : Tie} {d : Decimal} (hd : d.value = (shortest tie m).value) :
    withSign (isNegative x) d.toFloat = x := by
  have hround := d.roundsTo_toFloat
  rw [hd] at hround
  rw [magnitude?_eq] at hx
  cases hu : x.toModel.unpack with
  | notANumber => rw [hu] at hx; cases hx
  | infinity s => rw [hu] at hx; cases hx
  | zero s =>
    -- both zeros are stored, and only the sign tells them apart
    rw [hu] at hx
    cases hx
    have hsign := sign_eq.1 s hu
    have hmodel := pack_unpack_model x.toModel
    rw [hu, hsign] at hmodel
    have hx : x = .ofModel (.pack (.zero (signOf (isNegative x)))) := by rw [hmodel]
    have hvalue : (shortest tie ⟨0, -1074⟩).value = 0 := zero_mul _
    rw [hvalue] at hround
    rw [hround.unique (.zero (zpow_pos two_pos _).le)]
    conv_rhs => rw [hx]
    cases isNegative x <;> rfl
  | finite s mantissa e hm =>
    rw [hu] at hx
    cases hx
    have hcanonical := isCanonical_of_unpack hu
    rw [hround.eq_stored hcanonical (Magnitude.holds_shortest hcanonical tie), withSign_stored hu]

/-- The digits of a finite number, with their sign, denote the number. -/
theorem spells_plainChars {x : Float} (hx : x.isFinite = true) : Spells (plainChars x) x := by
  obtain ⟨m, hm⟩ := exists_magnitude?_eq hx
  refine ⟨isNegative x, _, _, Decimal.isReadFrom_positional (shortest .up m), ?_,
    withSign_toFloat_of_value hm (Decimal.value_written _)⟩
  rw [plainChars, hm]
  rfl

/-! ### Main results -/

/-- The plain text of a finite number reads back as the number. -/
theorem read?_plain {x : Float} (hx : x.isFinite = true) : read? (plain x) = some x := by
  rw [read?, plain, String.toList_ofList, (spells_plainChars hx).readChars?]

theorem isBlank_of_mem_plainChars {x : Float} (hx : x.isFinite = true) {c : Char}
    (hc : c ∈ plainChars x) : isBlank c = false := by
  obtain ⟨m, hm⟩ := exists_magnitude?_eq hx
  rw [plainChars, hm] at hc
  rcases List.mem_append.1 hc with hc | hc
  · rw [signText] at hc
    split at hc
    · rw [List.mem_singleton.1 hc]
      decide
    · cases hc
  · exact Decimal.isBlank_of_mem_positional hc

/-- The plain text has no blanks around it that could be taken off. -/
theorem readTrimmed?_plain {x : Float} (hx : x.isFinite = true) :
    readTrimmed? (plain x) = some x := by
  have htrim : trim (plainChars x) = plainChars x :=
    trim_eq_self (fun c hc => isBlank_of_mem_plainChars hx (List.mem_of_mem_head? hc))
      (fun c hc => isBlank_of_mem_plainChars hx (List.mem_of_mem_getLast? hc))
  rw [readTrimmed?, plain, String.toList_ofList, htrim, (spells_plainChars hx).readChars?]

/-- What is not finite is written as one of three words. -/
theorem nonFiniteText_mem (x : Float) :
    nonFiniteText x ∈ [['N', 'a', 'N'], ['-', 'i', 'n', 'f'], ['i', 'n', 'f']] := by
  unfold nonFiniteText signText
  cases x.isNaN <;> cases isNegative x <;> decide

/-- The text of any other number is read as a number that is not finite. -/
theorem readTrimmed?_plain_of_not_isFinite {x : Float} (hx : x.isFinite = false) :
    ∃ y, readTrimmed? (plain x) = some y ∧ y.isFinite = false := by
  rw [readTrimmed?, plain, String.toList_ofList, plainChars, magnitude?_eq_none hx]
  dsimp only
  have hwords : ∀ s ∈ [['N', 'a', 'N'], ['-', 'i', 'n', 'f'], ['i', 'n', 'f']],
      (readChars? (trim s)).map Float.isFinite = some false := by
    decide +kernel
  exact Option.map_eq_some_iff.1 (hwords _ (nonFiniteText_mem x))

end EnergyFormula.Number
