import EnergyFormula.Text.Blank
import EnergyFormula.Text.Digits
import Mathlib.Algebra.Group.Nat.Defs
import Mathlib.Data.List.Induction

/-!
# Rows of digits

The digits of a number denote the number (`digitsValue_natural`, `digitsValue_padded`), and a row of
digits is read up to its end (`spanDigits_of_digits`).
-/

namespace EnergyFormula.Text

theorem digitsValue_eq (cs : List Char) : digitsValue cs = Nat.ofDigitChars 10 cs 0 :=
  rfl

theorem digitsValue_padded (width n : Nat) : digitsValue (padded width n) = n := by
  rw [digitsValue_eq, padded, Nat.ofDigitChars_append, Nat.ofDigitChars_replicate_zero, Nat.mul_zero,
    natural, Nat.ofDigitChars_ten_toDigits]

theorem length_padded {width n : Nat} (hwidth : 0 < width) (h : n < 10 ^ width) :
    (padded width n).length = width := by
  have hle : (natural n).length ≤ width := (Nat.length_toDigits_le_iff (by decide) hwidth).2 h
  rw [padded, List.length_append, List.length_replicate]
  omega

theorem le_length_padded (width n : Nat) : width ≤ (padded width n).length := by
  rw [padded, List.length_append, List.length_replicate]
  omega

theorem isDigit_eq (c : Char) : isDigit c = c.isDigit := by
  unfold isDigit Char.isDigit
  rfl

theorem digitsValue_natural (n : Nat) : digitsValue (natural n) = n :=
  Nat.ofDigitChars_ten_toDigits

theorem isDigit_of_mem_natural {n : Nat} {c : Char} (h : c ∈ natural n) : isDigit c = true := by
  rw [isDigit_eq]
  exact Nat.isDigit_of_mem_toDigits (by decide) (by decide) h

theorem isDigit_of_mem_padded {width n : Nat} {c : Char} (h : c ∈ padded width n) :
    isDigit c = true := by
  rcases List.mem_append.1 h with h | h
  · rw [List.eq_of_mem_replicate h]
    decide
  · exact isDigit_of_mem_natural h

/-- A number has as many digits as its powers of ten say. -/
theorem length_natural_mem {n : Nat} (hn : 0 < n) :
    10 ^ ((natural n).length - 1) ≤ n ∧ n < 10 ^ (natural n).length := by
  have hpos : 0 < (natural n).length := Nat.length_toDigits_pos
  refine ⟨?_, (Nat.length_toDigits_le_iff (by decide) hpos).1 (Nat.le_refl _)⟩
  by_cases hone : (natural n).length = 1
  · rw [hone]
    exact hn
  · have hlt : ¬ (natural n).length ≤ (natural n).length - 1 := by omega
    have hle := mt (Nat.length_toDigits_le_iff (by decide) (by omega)).2 hlt
    exact Nat.le_of_not_lt hle

theorem isBlank_of_isDigit {c : Char} (h : isDigit c = true) : isBlank c = false := by
  unfold isDigit at h
  unfold isBlank
  simp only [Bool.and_eq_true, decide_eq_true_eq] at h
  simp only [Bool.or_eq_false_iff, Bool.and_eq_false_iff, decide_eq_false_iff_not, beq_eq_false_iff_ne]
  omega

/-- A row of digits denotes a number of no more digits. -/
theorem digitsValue_lt {cs : List Char} (h : ∀ c ∈ cs, isDigit c = true) :
    digitsValue cs < 10 ^ cs.length := by
  induction cs using List.reverseRecOn with
  | nil => decide
  | append_singleton cs c ih =>
    have hrest := ih fun d hd => h d (List.mem_append_left [c] hd)
    have hc := h c (List.mem_append_right cs (List.mem_singleton.2 rfl))
    have hdigit : c.toNat - 0x30 < 10 := by
      unfold isDigit at hc
      simp only [Bool.and_eq_true, decide_eq_true_eq] at hc
      omega
    have hvalue : digitsValue (cs ++ [c]) = 10 * digitsValue cs + (c.toNat - 0x30) := by
      unfold digitsValue
      rw [List.foldl_append]
      rfl
    rw [hvalue, List.length_append, List.length_singleton, Nat.pow_succ]
    omega

theorem spanDigits_of_digits {digits rest : List Char} (hdigits : ∀ c ∈ digits, isDigit c = true)
    (hrest : ∀ c ∈ rest.head?, isDigit c = false) : spanDigits (digits ++ rest) = (digits, rest) := by
  have htake : rest.takeWhile isDigit = [] := by
    cases rest with
    | nil => rfl
    | cons c rest => simp [hrest c rfl]
  have hdrop : rest.dropWhile isDigit = rest := by
    cases rest with
    | nil => rfl
    | cons c rest => simp [hrest c rfl]
  unfold spanDigits
  rw [List.takeWhile_append_of_pos hdigits, List.dropWhile_append_of_pos hdigits, htake, hdrop,
    List.append_nil]

theorem spanDigits_self {digits : List Char} (h : ∀ c ∈ digits, isDigit c = true) :
    spanDigits digits = (digits, []) := by
  have hspan : spanDigits (digits ++ []) = (digits, []) := spanDigits_of_digits h nofun
  rwa [List.append_nil] at hspan

/-- The digits at the start of a text and the rest of it. -/
theorem append_of_spanDigits {s digits rest : List Char} (h : spanDigits s = (digits, rest)) :
    s = digits ++ rest ∧ ∀ c ∈ digits, isDigit c = true := by
  have happend := spanDigits_append s
  have hdigits : ∀ c ∈ (spanDigits s).1, isDigit c = true := fun _ => isDigit_of_mem_spanDigits
  rw [h] at happend hdigits
  exact ⟨happend.symm, hdigits⟩

end EnergyFormula.Text
