import EnergyFormula.Proofs.Identifier.Parse
import EnergyFormula.Proofs.Validation.Defects

/-!
# Refused shares

A share that is refused is out of range if its text reads as a finite number, and malformed
otherwise.  The code is found again from the text of the error, so a number is classified by what
it denotes (`code_eq_iff_of_number`), and a text likewise, once the blanks around it are taken off
(`code_eq_iff_of_text`).  No number from zero to one is refused; such a text is, when it is not in
the pattern, and it still counts as out of range (`Percent.code_of_refused`).
-/

namespace EnergyFormula

open Text Number

/-! ### Codes -/

namespace MalformedIdentifier

/-- The code of a refused share says whether its text reads as a finite number. -/
theorem code_eq_iff (s : String) : code ⟨.percentValue, s⟩ = .outOfRangePercent ↔
    ∃ x, readTrimmed? s = some x ∧ x.isFinite = true := by
  have hnumeric : isNumeric ⟨.percentValue, s⟩ = true ↔
      ∃ x, readTrimmed? s = some x ∧ x.isFinite = true := by
    unfold isNumeric
    rw [Option.any_eq_true]
  rw [← hnumeric, code, decide_eq_true rfl, Bool.true_and]
  cases isNumeric ⟨.percentValue, s⟩ <;> decide

theorem code_eq_or (e : MalformedIdentifier) :
    e.code = .outOfRangePercent ∨ e.code = .malformedIdentifier := by
  unfold code
  split
  · exact .inl rfl
  · exact .inr rfl

/-- The text of a number is numeric exactly if the number is finite. -/
theorem code_eq_iff_of_number (x : Float) :
    code ⟨.percentValue, plain x⟩ = .outOfRangePercent ↔ x.isFinite = true := by
  rw [code_eq_iff]
  constructor
  · rintro ⟨y, hy, hfinite⟩
    by_contra hx
    obtain ⟨z, hz, hnot⟩ := readTrimmed?_plain_of_not_isFinite (Bool.eq_false_of_not_eq_true hx)
    rw [hy] at hz
    cases hz
    rw [hfinite] at hnot
    cases hnot
  · intro hx
    exact ⟨x, readTrimmed?_plain hx, hx⟩

theorem code_eq_iff_of_text (s : String) : code ⟨.percentValue, s⟩ = .outOfRangePercent ↔
    ∃ q, denoted? (trim s.toList) = some q ∧ |q| < overflowBound := by
  rw [code_eq_iff]
  exact exists_readChars?_isFinite_iff

end MalformedIdentifier

/-! ### Values that are no numbers -/

/-- The first character that is no blank stays the first one. -/
theorem Text.trim_cons {c : Char} (hc : isBlank c = false) (s : List Char) :
    ∃ rest, trim (c :: s) = c :: rest := by
  have hstart : trimStart (c :: s) = c :: s := by simp [trimStart, hc]
  rw [trim, hstart, List.reverse_cons, trimStart, List.dropWhile_append]
  split
  · exact ⟨[], by simp [hc]⟩
  · exact ⟨_, by rw [List.reverse_append, List.reverse_singleton, List.singleton_append]⟩

/-- A text that begins like none of the notations of numbers is not read. -/
theorem Number.readChars?_trim_eq_none {c : Char} {s : List Char} (hblank : isBlank c = false)
    (hdigit : isDigit c = false) (hsigns : c ≠ '-' ∧ c ≠ '+' ∧ c ≠ '.')
    (hwords : c.toLower ≠ 'i' ∧ c.toLower ≠ 'n') : readChars? (trim (c :: s)) = none := by
  obtain ⟨rest, hrest⟩ := trim_cons hblank s
  have hsign : splitSign (c :: rest) = (false, c :: rest) := by
    unfold splitSign
    split <;> simp_all
  have hunsigned : readUnsigned? (c :: rest) = none := by
    rw [readUnsigned?, readDecimal?_eq_none_of_head hdigit hsigns.2.2, List.map_cons]
    dsimp only
    split <;> simp_all
  rw [hrest, readChars?, hsign]
  dsimp only
  rw [hunsigned, Option.map_none]

/-- The texts of the values that are neither numbers nor texts are not numeric. -/
theorem readTrimmed?_compact {v : Json} (hnumber : v.toFloat? = none) (htext : v.toText? = none) :
    readTrimmed? v.compact = none := by
  cases v with
  | null => decide +kernel
  | boolean b => cases b <;> decide +kernel
  | integer n => cases hnumber
  | float x => cases hnumber
  | string s => cases htext
  | array items =>
    rw [readTrimmed?, Json.compact, String.toList_append, String.toList_append]
    exact readChars?_trim_eq_none (c := '[') (by decide) (by decide) (by decide) (by decide)
  | object members =>
    rw [readTrimmed?, Json.compact, String.toList_append, String.toList_append]
    exact readChars?_trim_eq_none (c := '\x7b') (by decide) (by decide) (by decide) (by decide)

/-! ### Main result -/

/-- The rational number that a value denotes: a number exactly, a text as a decimal without the
blanks around it. -/
def Json.denoted? : Json → Option ℚ
  | .integer n => some n
  | .float x => Number.rational? x
  | .string s => Number.denoted? (trim s.toList)
  | _ => none

namespace Percent

/-- A refused number does not lie between zero and one, and the error has its text. -/
theorem of_ofNumber_eq_error {x : Float} {e : MalformedIdentifier} (h : ofNumber x = .error e) :
    e = ⟨.percentValue, plain x⟩ ∧ ∀ q, rational? x = some q → ¬ (0 ≤ q ∧ q ≤ 1) := by
  unfold ofNumber at h
  split at h
  · cases h
  · rename_i hadmits
    cases h
    refine ⟨rfl, fun q hq hunit => hadmits ?_⟩
    have hfinite : x.isFinite = true := by rw [← isSome_rational?, hq]; rfl
    simp only [admits, hfinite, (mem_unit_iff hq).2 hunit, decide_true, Bool.and_self]

/-- A refused whole number is neither zero nor one. -/
theorem of_ofJson_integer {n : Int} {e : MalformedIdentifier}
    (h : ofJson (.integer n) = .error e) : ¬ (0 ≤ n ∧ n ≤ 1) := by
  have hzero : n ≠ 0 := by
    rintro rfl
    have hok : (ofJson (.integer 0)).toOption.isSome = true := by decide +kernel
    rw [h] at hok
    cases hok
  have hone : n ≠ 1 := by
    rintro rfl
    have hok : (ofJson (.integer 1)).toOption.isSome = true := by decide +kernel
    rw [h] at hok
    cases hok
  omega

/-- A refused share counts as out of range exactly if it denotes a finite number. -/
theorem code_eq_iff {v : Json} {e : MalformedIdentifier} (h : ofJson v = .error e) :
    e.code = .outOfRangePercent ↔ ∃ q, v.denoted? = some q ∧ |q| < overflowBound := by
  cases v with
  | string s =>
    obtain ⟨rfl, _⟩ := (decided_parse s).of_error h
    exact MalformedIdentifier.code_eq_iff_of_text s
  | integer n =>
    obtain ⟨rfl, _⟩ := of_ofNumber_eq_error h
    rw [MalformedIdentifier.code_eq_iff_of_number, isFinite_withSign,
      (roundsTo_ofNat _).isFinite_iff, Nat.cast_natAbs, Int.cast_abs]
    simp only [Json.denoted?, Option.some.injEq, exists_eq_left']
  | float x =>
    obtain ⟨rfl, _⟩ := of_ofNumber_eq_error h
    rw [MalformedIdentifier.code_eq_iff_of_number, ← isSome_rational?, Option.isSome_iff_exists]
    exact exists_congr fun q => (and_iff_left_of_imp abs_rational?_lt).symm
  | null | boolean _ | array _ | object _ =>
    cases h
    rw [MalformedIdentifier.code_eq_iff, readTrimmed?_compact rfl rfl]
    exact iff_of_false nofun nofun

/-- Only a text is refused although it denotes a number from zero to one. -/
theorem exists_text_of_mem_unit {v : Json} {e : MalformedIdentifier} (h : ofJson v = .error e)
    {q : ℚ} (hq : v.denoted? = some q) (hunit : 0 ≤ q ∧ q ≤ 1) :
    ∃ s, v = .string s ∧ IdentifierKind.percentValue.admits s = false := by
  cases v with
  | string s =>
    obtain ⟨_, hrefused⟩ := (decided_parse s).of_error h
    exact ⟨s, rfl, Bool.eq_false_of_not_eq_true hrefused⟩
  | integer n =>
    cases hq
    exact absurd (by exact_mod_cast hunit) (of_ofJson_integer h)
  | float x => exact absurd hunit ((of_ofNumber_eq_error h).2 q hq)
  | null | boolean _ | array _ | object _ => cases hq

/-- The classes of refused shares, and what the validator reports.  A refused share counts as out of
range exactly if it denotes a finite number; that number lies outside of the range from zero to one,
unless the share is a text that is not in the pattern. -/
theorem code_of_refused {v : Json} {e : MalformedIdentifier} (h : ofJson v = .error e) :
    (e.code = .outOfRangePercent ∨ e.code = .malformedIdentifier) ∧
      (e.code = .outOfRangePercent ↔ ∃ q, v.denoted? = some q ∧ |q| < overflowBound) ∧
      (∀ q, v.denoted? = some q → 0 ≤ q ∧ q ≤ 1 →
        ∃ s, v = .string s ∧ IdentifierKind.percentValue.admits s = false) ∧
      ∀ absent field, (PercentDocument.check absent field (some ⟨some v⟩)).findings.map
        (fun f => (f.path, f.defect.code)) = [([.field field], e.code)] := by
  refine ⟨e.code_eq_or, code_eq_iff h, fun q hq hunit => exists_text_of_mem_unit h hq hunit,
    fun absent field => ?_⟩
  show ((Checked.ofExcept Defect.malformed (ofJson v)).within [.field field]).findings.map _ = _
  rw [h]
  rfl

/-- One half without a digit before its point: it lies between zero and one and counts as out of
range. -/
theorem code_of_refused_barePoint :
    ofJson (.string ".5") = .error ⟨.percentValue, ".5"⟩ ∧
      (Json.string ".5").denoted? = some (1 / 2) ∧
      MalformedIdentifier.code ⟨.percentValue, ".5"⟩ = .outOfRangePercent := by
  have hrefused : ofJson (.string ".5") = .error ⟨.percentValue, ".5"⟩ := rfl
  have hdenoted : (Json.string ".5").denoted? = some (1 / 2) := by
    have htrim : trim ".5".toList = ['.', '5'] := by decide +kernel
    have hread : readDecimal? ['.', '5'] = some ⟨5, -1⟩ := by decide +kernel
    have hsign : splitSign ['.', '5'] = (false, ['.', '5']) := rfl
    rw [Json.denoted?, htrim, Number.denoted?, hsign]
    dsimp only
    rw [hread, Option.map_some, signed, if_neg Bool.false_ne_true, Decimal.value]
    norm_num
  refine ⟨hrefused, hdenoted, (code_of_refused hrefused).2.1.2 ⟨_, hdenoted, ?_⟩⟩
  exact lt_trans (by norm_num) one_lt_overflowBound

end Percent

end EnergyFormula
