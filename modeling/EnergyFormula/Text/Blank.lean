/-!
# Blank characters

`isBlank` is the property `White_Space` of the character set, and `trim` takes such characters off
both ends of a text.  A text with no blank at either end stays as it is (`trim_eq_self`).
-/

namespace EnergyFormula.Text

/-- A character with the property `White_Space`. -/
def isBlank (c : Char) : Bool :=
  let n := c.toNat
  (0x9 ≤ n && n ≤ 0xD) || n == 0x20 || n == 0x85 || n == 0xA0 || n == 0x1680 ||
    (0x2000 ≤ n && n ≤ 0x200A) || n == 0x2028 || n == 0x2029 || n == 0x202F || n == 0x205F ||
    n == 0x3000

/-- The text from its first character that is not blank. -/
def trimStart (s : List Char) : List Char :=
  s.dropWhile isBlank

/-- The text without the blanks at its two ends. -/
def trim (s : List Char) : List Char :=
  (trimStart (trimStart s).reverse).reverse

/-- `trim` on a string. -/
def trimmed (s : String) : String :=
  String.ofList (trim s.toList)

/-- A text that neither begins nor ends with a blank is trimmed already. -/
theorem trim_eq_self {s : List Char} (first : ∀ c ∈ s.head?, isBlank c = false)
    (last : ∀ c ∈ s.getLast?, isBlank c = false) : trim s = s := by
  have keep : ∀ t : List Char, (∀ c ∈ t.head?, isBlank c = false) → trimStart t = t := by
    intro t ht
    cases t with
    | nil => rfl
    | cons c t => simp [trimStart, ht c (by simp)]
  rw [trim, keep s first, keep s.reverse (by simpa using last), List.reverse_reverse]

end EnergyFormula.Text
