import EnergyFormula.Json.Numeral
import EnergyFormula.Text.HexDigit

/-!
# Reading JSON

`Json.read?` reads one value from a text, and refuses every text that is not exactly one value.
Arrays and objects may be nested `maxDepth` deep.
Each reader returns the rest of the text with a bound on its length, so that reading ends.
-/

namespace EnergyFormula.Json

open Text

/-- What is left of a text: fewer than `n` characters. -/
abbrev Rest (n : Nat) : Type :=
  { r : List Char // r.length < n }

/-- Deepest nesting of arrays and objects. -/
def maxDepth : Nat :=
  127

/-- The four characters that may stand between the parts of a document. -/
def isSpace (c : Char) : Bool :=
  c = ' ' || c = '\t' || c = '\n' || c = '\r'

/-- The text from its first character that is no space. -/
def skipSpace (s : List Char) : List Char :=
  s.dropWhile isSpace

theorem length_skipSpace_le (s : List Char) : (skipSpace s).length ≤ s.length :=
  (List.dropWhile_sublist _).length_le

/-- The number that four hexadecimal digits denote. -/
def hexQuad? (a b c d : Char) : Option Nat :=
  match hexValue? a, hexValue? b, hexValue? c, hexValue? d with
  | some a, some b, some c, some d => some ((((a : Nat) * 16 + b) * 16 + c) * 16 + d)
  | _, _, _, _ => none

/-- The first half of a pair of units that stand for one character. -/
def isHighSurrogate (n : Nat) : Bool :=
  0xD800 ≤ n && n ≤ 0xDBFF

/-- The second half of such a pair. -/
def isLowSurrogate (n : Nat) : Bool :=
  0xDC00 ≤ n && n ≤ 0xDFFF

/-- The character that stands for itself after a backslash, or for a control character. -/
def shortEscape? : Char → Option Char
  | '"' => some '"'
  | '\\' => some '\\'
  | '/' => some '/'
  | 'b' => some '\x08'
  | 'f' => some '\x0c'
  | 'n' => some '\n'
  | 'r' => some '\r'
  | 't' => some '\t'
  | _ => none

/-- The character behind a backslash, and what follows it. -/
def escape? (n : Nat) : (s : List Char) → s.length ≤ n → Option (Char × Rest n)
  | 'u' :: a :: b :: c :: d :: r, h =>
    match hexQuad? a b c d with
    | none => none
    | some high =>
      if isHighSurrogate high then
        match r, h with
        | '\\' :: 'u' :: e :: f :: g :: k :: r, h =>
          match hexQuad? e f g k with
          | some low =>
            if isLowSurrogate low then
              some (Char.ofNat (0x10000 + (high - 0xD800) * 0x400 + (low - 0xDC00)),
                ⟨r, by simp only [List.length_cons] at h; omega⟩)
            else none
          | none => none
        | _, _ => none
      else if isLowSurrogate high then none
      else some (Char.ofNat high, ⟨r, by simp only [List.length_cons] at h; omega⟩)
  | c :: r, h =>
    (shortEscape? c).map fun e => (e, ⟨r, by simp only [List.length_cons] at h; omega⟩)
  | [], _ => none

/-- The characters of a string up to the closing quote; `done` holds those read so far, last
first. -/
def stringBody? (n : Nat) (done : List Char) :
    (s : List Char) → s.length ≤ n → Option (String × Rest n)
  | [], _ => none
  | c :: r, h =>
    if c = '"' then
      some (String.ofList done.reverse, ⟨r, by simp only [List.length_cons] at h; omega⟩)
    else if c = '\\' then
      match escape? r.length r (Nat.le_refl _) with
      | none => none
      | some (e, ⟨rest, hr⟩) =>
        stringBody? n (e :: done) rest (by simp only [List.length_cons] at h; omega)
    else if c.toNat < 0x20 then none
    else stringBody? n (c :: done) r (by simp only [List.length_cons] at h; omega)
termination_by s => s.length
decreasing_by all_goals simp only [List.length_cons]; omega

/-- The words that are values. -/
def words : List (List Char × Json) :=
  [("true".toList, .boolean true), ("false".toList, .boolean false), ("null".toList, .null)]

/-- A word at the start of a text. -/
def word? (n : Nat) (s : List Char) : Option (Json × Rest n) :=
  words.findSome? fun (word, v) =>
    let rest := s.drop word.length
    if hr : rest.length < n then if word.isPrefixOf s then some (v, ⟨rest, hr⟩) else none
    else none

/-- A number at the start of a text. -/
def numberPrefix? (n : Nat) (s : List Char) : Option (Json × Rest n) :=
  let rest := s.dropWhile isNumberChar
  if hr : rest.length < n then (number? (s.takeWhile isNumberChar)).map fun v => (v, ⟨rest, hr⟩)
  else none

mutual

/-- One value at the start of a text. -/
def value? (depth n : Nat) (s : List Char) (h : s.length ≤ n) : Option (Json × Rest n) :=
  match hs : skipSpace s with
  | [] => none
  | c :: r =>
    have hr : r.length < s.length := by
      have := length_skipSpace_le s
      rw [hs, List.length_cons] at this
      omega
    if c = '"' then (stringBody? n [] r (by omega)).map fun (t, rest) => (.string t, rest)
    else if c = '[' then
      match depth with
      | 0 => none
      | d + 1 => items? d n [] true r (by omega)
    else if c = '{' then
      match depth with
      | 0 => none
      | d + 1 => members? d n [] true r (by omega)
    else word? n (c :: r) <|> numberPrefix? n (c :: r)
termination_by (depth, s.length, 0)

/-- The items of an array up to its closing bracket; `first` says that none has been read. -/
def items? (depth n : Nat) (done : List Json) (first : Bool) (s : List Char) (h : s.length ≤ n) :
    Option (Json × Rest n) :=
  match hs : skipSpace s with
  | [] => none
  | c :: r =>
    have hr : r.length < s.length := by
      have := length_skipSpace_le s
      rw [hs, List.length_cons] at this
      omega
    if c = ']' && first then some (.array done.reverse, ⟨r, by omega⟩)
    else
      match value? depth s.length s (Nat.le_refl _) with
      | none => none
      | some (v, ⟨rest, hv⟩) =>
        match ht : skipSpace rest with
        | [] => none
        | d :: t =>
          have hl : t.length < rest.length := by
            have := length_skipSpace_le rest
            rw [ht, List.length_cons] at this
            omega
          if d = ',' then items? depth n (v :: done) false t (by omega)
          else if d = ']' then some (.array (v :: done).reverse, ⟨t, by omega⟩)
          else none
termination_by (depth, s.length, 1)

/-- The members of an object up to its closing bracket. -/
def members? (depth n : Nat) (done : List (String × Json)) (first : Bool) (s : List Char)
    (h : s.length ≤ n) : Option (Json × Rest n) :=
  match hs : skipSpace s with
  | [] => none
  | c :: r =>
    have hr : r.length < s.length := by
      have := length_skipSpace_le s
      rw [hs, List.length_cons] at this
      omega
    if c = '}' && first then some (.object done.reverse, ⟨r, by omega⟩)
    else if c = '"' then
      match stringBody? r.length [] r (Nat.le_refl _) with
      | none => none
      | some (key, ⟨rest, hk⟩) =>
        match hc : skipSpace rest with
        | ':' :: t =>
          have hl : t.length < rest.length := by
            have := length_skipSpace_le rest
            rw [hc, List.length_cons] at this
            omega
          match value? depth t.length t (Nat.le_refl _) with
          | none => none
          | some (v, ⟨rest', hv⟩) =>
            match ht : skipSpace rest' with
            | [] => none
            | d :: u =>
              have hu : u.length < rest'.length := by
                have := length_skipSpace_le rest'
                rw [ht, List.length_cons] at this
                omega
              if d = ',' then members? depth n ((key, v) :: done) false u (by omega)
              else if d = '}' then some (.object ((key, v) :: done).reverse, ⟨u, by omega⟩)
              else none
        | _ => none
    else none
termination_by (depth, s.length, 1)

end

/-- The one value that a text holds. -/
def read? (text : String) : Option Json :=
  let s := text.toList
  match value? maxDepth s.length s (Nat.le_refl _) with
  | some (v, ⟨rest, _⟩) => if skipSpace rest = [] then some v else none
  | none => none

end EnergyFormula.Json
