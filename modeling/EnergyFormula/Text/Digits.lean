/-!
# Decimal digits

The digits `0` to `9`: their value (`digitsValue`), and the text of a natural number, plain
(`natural`) or filled up with zeros (`padded`).
-/

namespace EnergyFormula.Text

/-- One of the ten characters `0` to `9`. -/
def isDigit (c : Char) : Bool :=
  0x30 ≤ c.toNat && c.toNat ≤ 0x39

/-- An upper-case letter `A` to `Z`. -/
def isUpper (c : Char) : Bool :=
  0x41 ≤ c.toNat && c.toNat ≤ 0x5A

/-- A letter `A` to `Z` or `a` to `z`. -/
def isLetter (c : Char) : Bool :=
  isUpper c || (0x61 ≤ c.toNat && c.toNat ≤ 0x7A)

/-- A digit or one of the letters `a` to `f`, in either case. -/
def isHexDigit (c : Char) : Bool :=
  isDigit c || (0x41 ≤ c.toNat && c.toNat ≤ 0x46) || (0x61 ≤ c.toNat && c.toNat ≤ 0x66)

/-- The letters `A` to `Z` turn into `a` to `z`; every other character stays. -/
def lower (s : String) : String :=
  String.ofList (s.toList.map Char.toLower)

/-- The letters `a` to `z` turn into `A` to `Z`; every other character stays. -/
def upper (s : String) : String :=
  String.ofList (s.toList.map Char.toUpper)

/-- The number that a row of digits denotes, most significant digit first. -/
def digitsValue (cs : List Char) : Nat :=
  cs.foldl (fun n c => 10 * n + (c.toNat - 0x30)) 0

/-- The digits of a number, without leading zeros. -/
def natural (n : Nat) : List Char :=
  Nat.toDigits 10 n

/-- The digits of a number, with leading zeros up to `width` characters. -/
def padded (width n : Nat) : List Char :=
  List.replicate (width - (natural n).length) '0' ++ natural n

/-- A row of digits and what follows it. -/
def spanDigits (s : List Char) : List Char × List Char :=
  (s.takeWhile isDigit, s.dropWhile isDigit)

/-- Nothing of the text is lost between the digits and the rest. -/
theorem spanDigits_append (s : List Char) : (spanDigits s).1 ++ (spanDigits s).2 = s :=
  List.takeWhile_append_dropWhile

/-- The first part holds digits only. -/
theorem isDigit_of_mem_spanDigits {c : Char} {s : List Char} (h : c ∈ (spanDigits s).1) :
    isDigit c = true := by
  induction s with
  | nil => simp [spanDigits] at h
  | cons d s ih =>
    by_cases hd : isDigit d = true
    · rw [spanDigits, List.takeWhile_cons_of_pos hd, List.mem_cons] at h
      rcases h with rfl | h
      · exact hd
      · exact ih h
    · simp [spanDigits, hd] at h

end EnergyFormula.Text
