import EnergyFormula.Text.HexDigit

/-!
# Universally unique identifiers

An identifier of 128 bits, kept as its 32 hexadecimal digits.  It is read in four notations
(`Uuid.parse?`): the digits alone, the digits in five groups with hyphens between them, and the
groups in braces or after `urn:uuid:`.  It is written in groups and in lower case (`Uuid.text`).
-/

namespace EnergyFormula

open Text

/-- A universally unique identifier. -/
structure Uuid where
  digits : List (Fin 16)
  length_digits : digits.length = 32
  deriving DecidableEq

namespace Uuid

/-- The characters in five groups, with a hyphen between any two. -/
def hyphenate (s : List Char) : List Char :=
  s.take 8 ++ '-' :: ((s.drop 8).take 4 ++ '-' :: ((s.drop 12).take 4 ++
    '-' :: ((s.drop 16).take 4 ++ '-' :: s.drop 20)))

/-- The characters of the groups, without the hyphens between them. -/
def joinGroups? (s : List Char) : Option (List Char) :=
  if [8, 13, 18, 23].all fun i => s[i]? = some '-' then
    some (s.take 8 ++ ((s.drop 9).take 4 ++ ((s.drop 14).take 4 ++ ((s.drop 19).take 4 ++
      s.drop 24))))
  else none

/-- The identifier with the given digits. -/
def ofDigits? (s : List Char) : Option Uuid := do
  let digits ← s.mapM hexValue?
  if h : digits.length = 32 then some ⟨digits, h⟩ else none

/-- The identifier with the digits in the given groups. -/
def ofGroups? (s : List Char) : Option Uuid :=
  joinGroups? s >>= ofDigits?

/-- The identifier that a text denotes. -/
def parse? (s : List Char) : Option Uuid :=
  if s.length = 32 then ofDigits? s
  else if s.length = 36 then ofGroups? s
  else
    match s with
    | '\x7b' :: rest => if rest.getLast? = some '\x7d' then ofGroups? rest.dropLast else none
    | 'u' :: 'r' :: 'n' :: ':' :: 'u' :: 'u' :: 'i' :: 'd' :: ':' :: rest => ofGroups? rest
    | _ => none

/-- The identifier as a text. -/
def text (u : Uuid) : String :=
  String.ofList (hyphenate (u.digits.map fun d : Fin 16 => hexDigit d))

/-! ### Groups -/

section Groups

variable {s : List Char}

theorem map_hyphenate {f : Char → Char} (hf : f '-' = '-') (s : List Char) :
    (hyphenate s).map f = hyphenate (s.map f) := by
  simp [hyphenate, hf]

theorem length_hyphenate (hs : s.length = 32) : (hyphenate s).length = 36 := by
  simp [hyphenate, hs]

/-- The five groups make up the whole row. -/
theorem append_groups (s : List Char) :
    s.take 8 ++ ((s.drop 8).take 4 ++ ((s.drop 12).take 4 ++ ((s.drop 16).take 4 ++ s.drop 20))) =
      s := by
  have hstep (n : Nat) : (s.drop n).take 4 ++ s.drop (n + 4) = s.drop n := by
    rw [← List.drop_drop, List.take_append_drop]
  rw [hstep 16, hstep 12, hstep 8, List.take_append_drop]

theorem joinGroups?_hyphenate (hs : s.length = 32) : joinGroups? (hyphenate s) = some s := by
  have hjoin : joinGroups? (hyphenate s) = some (s.take 8 ++ ((s.drop 8).take 4 ++
      ((s.drop 12).take 4 ++ ((s.drop 16).take 4 ++ s.drop 20)))) := by
    simp [joinGroups?, hyphenate, hs, List.drop_append, List.getElem?_append, List.drop_take]
  rw [hjoin, append_groups]

end Groups

end Uuid

end EnergyFormula
