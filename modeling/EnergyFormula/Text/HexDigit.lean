import EnergyFormula.Text.Digits

/-!
# Hexadecimal digits

The sixteen digits are read in either case (`hexValue?`) and written in lower case (`hexDigit`).
-/

namespace EnergyFormula.Text

/-- The value of a hexadecimal digit. -/
def hexValue? (c : Char) : Option (Fin 16) :=
  if isDigit c then some (Fin.ofNat 16 (c.toNat - 0x30))
  else if isHexDigit c then some (Fin.ofNat 16 (c.toLower.toNat - 0x61 + 10))
  else none

/-- One of the sixteen hexadecimal digits, in lower case. -/
def hexDigit (n : Nat) : Char :=
  if n < 10 then Char.ofNat (0x30 + n) else Char.ofNat (0x61 + n - 10)

theorem isSome_hexValue? (c : Char) : (hexValue? c).isSome = isHexDigit c := by
  unfold hexValue?
  split
  · rename_i h
    simp [isHexDigit, h]
  · split
    · rename_i h
      simp [h]
    · rename_i h
      simp [h]

theorem hexValue?_hexDigit : ∀ d : Fin 16, hexValue? (hexDigit d) = some d := by
  decide

/-- A digit is written as it was read, in lower case. -/
theorem hexDigit_of_hexValue? {c : Char} {d : Fin 16} (h : hexValue? c = some d) :
    hexDigit d = c.toLower := by
  have hcases : ∀ n < 0x67, ∀ d ∈ hexValue? (Char.ofNat n),
      hexDigit d = (Char.ofNat n).toLower := by
    decide +kernel
  have hhex : isHexDigit c = true := by rw [← isSome_hexValue?, h]; rfl
  have hlt : c.toNat < 0x67 := by
    simp only [isHexDigit, isDigit, Bool.or_eq_true, Bool.and_eq_true, decide_eq_true_eq] at hhex
    omega
  have hc := hcases c.toNat hlt
  rw [Char.ofNat_toNat] at hc
  exact hc d h

end EnergyFormula.Text
