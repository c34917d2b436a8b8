import EnergyFormula.Json.Printer
import EnergyFormula.Proofs.Number.ReadBack

/-!
# Numbers read back from documents

A float in a document has a point or an exponent (`spells_literal`), an integer its digits alone,
even more of them than a float can keep (`spells_integer`).  Either is a decimal behind a sign, so
what is read from the text of a JSON number is its value as a float (`spells_compact`).
-/

namespace EnergyFormula.Number

open Text

namespace Decimal

/-- The digits of a natural number denote it. -/
theorem isReadFrom_natural (n : Nat) : IsReadFrom ⟨n, 0⟩ (natural n) := by
  have hne : natural n ≠ [] := Nat.toDigits_ne_nil
  have hread := isReadFrom_digits hne fun x hx => isDigit_of_mem_natural hx
  rwa [digitsValue_natural] at hread

/-- An exponent with its sign, as it is written. -/
theorem readExponent?_signed (e : Int) :
    readExponent? ('e' :: (if e < 0 then '-' else '+') :: natural e.natAbs) = some e := by
  have hdigits : natural e.natAbs ≠ [] ∧ (natural e.natAbs).all isDigit = true :=
    ⟨Nat.toDigits_ne_nil, List.all_eq_true.2 fun x hx => isDigit_of_mem_natural hx⟩
  have hsplit : splitSign ((if e < 0 then '-' else '+') :: natural e.natAbs) =
      (decide (e < 0), natural e.natAbs) := by
    by_cases he : e < 0
    · rw [if_pos he, decide_eq_true he]
      rfl
    · rw [if_neg he, decide_eq_false he]
      rfl
  rw [readExponent?, if_pos (by decide), hsplit]
  dsimp only
  rw [if_pos hdigits, digitsValue_natural, Option.some.injEq]
  simp only [decide_eq_true_eq]
  split <;> omega

/-- A decimal with its exponent written out is read as it is. -/
theorem isReadFrom_scientific (d : Decimal) : d.IsReadFrom d.scientific := by
  obtain ⟨c, exponent⟩ := d
  have hne : (natural c).take 1 ≠ [] := by simp [natural, Nat.toDigits_ne_nil]
  have hall : ∀ x ∈ natural c, isDigit x = true := fun x hx => isDigit_of_mem_natural hx
  have hwhole : ∀ x ∈ (natural c).take 1, isDigit x = true := fun x hx =>
    hall x (List.mem_of_mem_take hx)
  have htail := readExponent?_signed (exponent + (natural c).length - 1)
  unfold scientific
  dsimp only
  -- a single digit is written without a point
  by_cases hone : (natural c).length = 1
  · have hread := isReadFrom_whole hne hwhole htail
    rw [List.take_of_length_le hone.le, digitsValue_natural] at hread
    rw [if_pos hone, List.append_nil, List.take_of_length_le hone.le]
    have hexponent : exponent + (natural c).length - 1 = exponent := by omega
    rw [hexponent] at hread ⊢
    exact hread
  · have hfraction : ∀ x ∈ (natural c).drop 1, isDigit x = true := fun x hx =>
      hall x (List.mem_of_mem_drop hx)
    have hread := isReadFrom_point hne hwhole hfraction htail
    have hexponent : exponent + (natural c).length - 1 - ((natural c).drop 1).length =
        exponent := by
      rw [List.length_drop]
      have := Nat.length_toDigits_pos (b := 10) (n := c)
      unfold natural
      omega
    rw [List.take_append_drop, digitsValue_natural, hexponent] at hread
    rw [if_neg hone, List.append_assoc, List.cons_append]
    exact hread

/-- A decimal as it stands in a document. -/
def documented (d : Decimal) : List Char :=
  if d.isModerate then
    if 0 ≤ d.exponent then d.positional ++ ['.', '0'] else d.positional
  else d.scientific

/-- A decimal that is written in a document is read as one of the same size. -/
theorem exists_isReadFrom_documented (d : Decimal) :
    ∃ d', IsReadFrom d' d.documented ∧ d'.value = d.value := by
  unfold documented
  split
  · split
    · obtain ⟨c, exponent⟩ := d
      cases exponent with
      | negSucc n => exact absurd ‹_› (Int.not_le.2 (Int.negSucc_lt_zero n))
      | ofNat zeros =>
        obtain ⟨hne, hall, hvalue⟩ := positional_ofNat c zeros
        have hlast : ∀ x ∈ ['0'], isDigit x = true := List.forall_mem_singleton.2 (by decide)
        refine ⟨_, isReadFrom_places hne hall hlast, ?_⟩
        -- the zero behind the point multiplies the digits by ten
        have hzero := digitsValue_zeros (positional ⟨c, .ofNat zeros⟩) 1
        rw [List.replicate_one, hvalue] at hzero
        show (digitsValue (positional ⟨c, .ofNat zeros⟩ ++ ['0']) : ℚ) * 10 ^ (-1 : Int) =
          c * 10 ^ (zeros : Int)
        rw [hzero, zpow_natCast]
        push_cast
        field_simp
    · exact ⟨d.written, d.isReadFrom_positional, d.value_written⟩
  · exact ⟨d, d.isReadFrom_scientific, rfl⟩

end Decimal

/-! ### Floats -/

/-- A finite number in a document denotes the number. -/
theorem spells_literal {x : Float} (hx : x.isFinite = true) : Spells (literal x).toList x := by
  obtain ⟨m, hm⟩ := exists_magnitude?_eq hx
  obtain ⟨d, hd, hvalue⟩ := (shortest .toEven m).exists_isReadFrom_documented
  refine ⟨isNegative x, d, _, hd, ?_, withSign_toFloat_of_value hm hvalue⟩
  rw [literal, hm, String.toList_ofList]
  rfl

/-! ### Integers -/

/-- The digits of an integer, with a minus sign before those of a negative one. -/
theorem toList_toString (n : Int) :
    (toString n).toList = signChars (n < 0) ++ natural n.natAbs := by
  cases n with
  | ofNat n => exact String.toList_ofList
  | negSucc n =>
    rw [decide_eq_true (Int.negSucc_lt_zero n)]
    show ("-" ++ String.ofList (natural (n + 1))).toList = ['-'] ++ natural (n + 1)
    rw [String.toList_append]
    exact congrArg (['-'] ++ ·) String.toList_ofList

/-- The digits of a natural number are read as the float that is nearest to it. -/
theorem toFloat_natural (n : Nat) : Decimal.toFloat ⟨n, 0⟩ = Float.ofNat n := by
  have hround := Decimal.roundsTo_toFloat ⟨n, 0⟩
  have hvalue : Decimal.value ⟨n, 0⟩ = n := mul_one _
  rw [hvalue] at hround
  exact hround.unique (roundsTo_ofNat n)

/-- An integer in a document denotes the float that is nearest to it. -/
theorem spells_integer (n : Int) :
    Spells (toString n).toList (withSign (n < 0) (Float.ofNat n.natAbs)) :=
  ⟨decide (n < 0), _, _, Decimal.isReadFrom_natural n.natAbs, toList_toString n,
    by rw [toFloat_natural]⟩

/-! ### Main result -/

/-- The text of a JSON number denotes its value; a value that is not finite is written as a word. -/
theorem spells_compact {v : Json} {x : Float} (h : v.toFloat? = some x) :
    Spells v.compact.toList x ∨
      v.compact = String.ofList (nonFiniteText x) ∧ x.isFinite = false := by
  cases v with
  | integer n =>
    obtain rfl := Option.some.inj h
    exact .inl (spells_integer n)
  | float y =>
    obtain rfl := Option.some.inj h
    cases hy : y.isFinite with
    | true => exact .inl (spells_literal hy)
    | false => exact .inr ⟨by rw [Json.compact, literal, magnitude?_eq_none hy], rfl⟩
  | _ => cases h

end EnergyFormula.Number
