import EnergyFormula.Proofs.Identifier.Uuid
import EnergyFormula.Proofs.Text.Digits
import Mathlib.Computability.Language

/-!
# Published patterns

The pattern of each kind as a regular expression (`IdentifierKind.published`) that is written as it
is published (`IdentifierKind.text_published`).  A kind admits exactly the texts that its pattern
matches (`IdentifierKind.admits_iff_matches`).
-/

namespace EnergyFormula

open Computability Text Number

/-! ### Regular expressions -/

/-- The characters that may stand in one place. -/
inductive CharClass where
  | exactly (c : Char)
  | digit
  | among (ranges : List (Char × Char))
  | any

namespace CharClass

def holds : CharClass → Char → Bool
  | exactly d, c => c = d
  | digit, c => isDigit c
  | among ranges, c => ranges.any fun r => r.1 ≤ c && c ≤ r.2
  | any, c => c ≠ '\n'

def text : CharClass → String
  | exactly c => if c = '.' then "\\." else String.singleton c
  | digit => "\\d"
  | among ranges => "[" ++ String.join (ranges.map fun r =>
      if r.1 = r.2 then String.singleton r.1 else String.ofList [r.1, '-', r.2]) ++ "]"
  | any => "."

theorem holds_exactly {c d : Char} : holds (exactly d) c = true ↔ c = d :=
  decide_eq_true_iff

theorem holds_digit (c : Char) : holds digit c = isDigit c :=
  rfl

theorem holds_among {ranges : List (Char × Char)} {c : Char} : holds (among ranges) c =
    ranges.any fun r => r.1.toNat ≤ c.toNat && c.toNat ≤ r.2.toNat :=
  rfl

/-- Either of two characters. -/
theorem holds_pair {a b c : Char} :
    holds (among [(a, a), (b, b)]) c = true ↔ c = a ∨ c = b := by
  have hchar (d : Char) : d ≤ c ∧ c ≤ d ↔ c = d :=
    ⟨fun h => Char.le_antisymm h.2 h.1, fun h => h ▸ ⟨Char.le_refl c, Char.le_refl c⟩⟩
  simp only [holds, List.any_cons, List.any_nil, Bool.or_false, Bool.or_eq_true, Bool.and_eq_true,
    decide_eq_true_eq, hchar]

/-- `[A-Z0-9]`. -/
def capital : CharClass :=
  among [('A', 'Z'), ('0', '9')]

/-- `[0-9a-fA-F]`. -/
def hexDigit : CharClass :=
  among [('0', '9'), ('a', 'f'), ('A', 'F')]

/-- `[a-zA-Z]`. -/
def letter : CharClass :=
  among [('a', 'z'), ('A', 'Z')]

theorem holds_capital (c : Char) : capital.holds c = (isUpper c || isDigit c) := by
  rw [capital, holds_among]
  simp [isUpper, isDigit]

theorem holds_hexDigit (c : Char) : hexDigit.holds c = isHexDigit c := by
  rw [hexDigit, holds_among]
  simp [isHexDigit, isDigit, Bool.or_assoc, Bool.or_comm]

theorem holds_letter (c : Char) : letter.holds c = isLetter c := by
  rw [letter, holds_among]
  simp [isLetter, isUpper, Bool.or_comm]

end CharClass

/-- A regular expression over the classes of characters. -/
inductive Regex where
  | one (k : CharClass)
  | seq (a b : Regex)
  | either (a b : Regex)
  | optional (a : Regex)
  | many (a : Regex)
  | atLeastOnce (a : Regex)
  | times (a : Regex) (n : Nat)

namespace Regex

/-- The texts that the expression matches as a whole. -/
def language : Regex → Language Char
  | one k => fun s => ∃ c, k.holds c = true ∧ s = [c]
  | seq a b => a.language * b.language
  | either a b => a.language + b.language
  | optional a => 1 + a.language
  | many a => a.language∗
  | atLeastOnce a => a.language * a.language∗
  | times a n => a.language ^ n

/-- What a repetition refers to: a sequence stands in parentheses. -/
def grouped (a : Regex) (text : String) : String :=
  match a with
  | seq _ _ => "(" ++ text ++ ")"
  | _ => text

def text : Regex → String
  | one k => k.text
  | seq a b => a.text ++ b.text
  | either a b => "(" ++ a.text ++ "|" ++ b.text ++ ")"
  | optional a => a.grouped a.text ++ "?"
  | many a => a.grouped a.text ++ "*"
  | atLeastOnce a => a.grouped a.text ++ "+"
  | times a n => a.grouped a.text ++ "\x7b" ++ toString n ++ "\x7d"

variable {a b : Regex} {k : CharClass} {s : List Char} {n : Nat}

theorem mem_one : s ∈ (one k).language ↔ ∃ c, k.holds c = true ∧ s = [c] :=
  Iff.rfl

theorem mem_seq : s ∈ (seq a b).language ↔ ∃ t ∈ a.language, ∃ u ∈ b.language, t ++ u = s :=
  Language.mem_mul

theorem mem_either : s ∈ (either a b).language ↔ s ∈ a.language ∨ s ∈ b.language :=
  Language.mem_add _ _ _

theorem mem_optional : s ∈ (optional a).language ↔ s = [] ∨ s ∈ a.language :=
  Language.mem_add _ _ _

/-- A character and what follows it. -/
theorem mem_one_seq : s ∈ (seq (one k) b).language ↔
    ∃ c t, k.holds c = true ∧ t ∈ b.language ∧ s = c :: t := by
  rw [mem_seq]
  constructor
  · rintro ⟨_, ⟨c, hc, rfl⟩, t, ht, rfl⟩
    exact ⟨c, t, hc, ht, rfl⟩
  · rintro ⟨c, t, hc, ht, rfl⟩
    exact ⟨[c], ⟨c, hc, rfl⟩, t, ht, rfl⟩

theorem mem_exactly_seq {c : Char} :
    s ∈ (seq (one (.exactly c)) b).language ↔ ∃ t ∈ b.language, s = c :: t := by
  simp [mem_one_seq, CharClass.holds_exactly]

theorem mem_times_one :
    s ∈ (times (one k) n).language ↔ s.length = n ∧ ∀ c ∈ s, k.holds c = true := by
  show s ∈ (one k).language ^ n ↔ _
  induction n generalizing s with
  | zero =>
    rw [pow_zero, Language.mem_one, List.length_eq_zero_iff]
    exact ⟨fun h => ⟨h, h ▸ nofun⟩, And.left⟩
  | succ n ih =>
    rw [pow_succ', Language.mem_mul]
    constructor
    · rintro ⟨_, ⟨c, hc, rfl⟩, t, ht, rfl⟩
      obtain ⟨hlength, hall⟩ := ih.1 ht
      refine ⟨congrArg Nat.succ hlength, fun d hd => ?_⟩
      rcases List.mem_cons.1 hd with rfl | hd
      · exact hc
      · exact hall d hd
    · rintro ⟨hlength, hall⟩
      obtain ⟨c, t, rfl⟩ := List.exists_cons_of_length_eq_add_one hlength
      exact ⟨[c], ⟨c, hall c List.mem_cons_self, rfl⟩, t,
        ih.2 ⟨Nat.succ.inj hlength, fun d hd => hall d (List.mem_cons_of_mem c hd)⟩, rfl⟩

theorem mem_many_one : s ∈ (many (one k)).language ↔ ∀ c ∈ s, k.holds c = true := by
  show s ∈ (one k).language∗ ↔ _
  rw [Language.kstar_eq_iSup_pow, Language.mem_iSup]
  constructor
  · rintro ⟨n, hn⟩
    exact (mem_times_one.1 hn).2
  · intro h
    exact ⟨s.length, mem_times_one.2 ⟨rfl, h⟩⟩

theorem mem_atLeastOnce_one :
    s ∈ (atLeastOnce (one k)).language ↔ s ≠ [] ∧ ∀ c ∈ s, k.holds c = true := by
  show s ∈ (seq (one k) (many (one k))).language ↔ _
  rw [mem_one_seq]
  constructor
  · rintro ⟨c, t, hc, ht, rfl⟩
    exact ⟨List.cons_ne_nil c t, List.forall_mem_cons.2 ⟨hc, mem_many_one.1 ht⟩⟩
  · rintro ⟨hne, hall⟩
    obtain ⟨c, t, rfl⟩ := List.exists_cons_of_ne_nil hne
    obtain ⟨hc, ht⟩ := List.forall_mem_cons.1 hall
    exact ⟨c, t, hc, mem_many_one.2 ht, rfl⟩

end Regex

/-! ### Patterns -/

/-- A regular expression that a text begins with, or that it matches as a whole. -/
structure Pattern where
  expression : Regex
  closed : Bool

namespace Pattern

def text (p : Pattern) : String :=
  "^" ++ p.expression.text ++ if p.closed then "$" else ""

def Matches (p : Pattern) (s : List Char) : Prop :=
  if p.closed then s ∈ p.expression.language else ∃ t ∈ p.expression.language, t <+: s

end Pattern

namespace IdentifierKind

open Regex

/-- `0`, with any decimal places, or `1`, with zeros as decimal places. -/
def percentExpression : Regex :=
  .either (.seq (.one (.exactly '0'))
      (.optional (.seq (.one (.exactly '.')) (.atLeastOnce (.one .digit)))))
    (.seq (.one (.exactly '1'))
      (.optional (.seq (.one (.exactly '.')) (.atLeastOnce (.one (.exactly '0'))))))

/-- Digits with a point after them or among them, or after a point. -/
def decimalExpression : Regex :=
  .either (.seq (.atLeastOnce (.one .digit))
      (.optional (.seq (.one (.exactly '.')) (.many (.one .digit)))))
    (.seq (.one (.exactly '.')) (.atLeastOnce (.one .digit)))

/-- The exponent of a decimal. -/
def exponentExpression : Regex :=
  .seq (.one (.among [('e', 'e'), ('E', 'E')]))
    (.seq (.optional (.one (.among [('+', '+'), ('-', '-')]))) (.atLeastOnce (.one .digit)))

/-- The published pattern of a kind. -/
def published : IdentifierKind → Pattern
  | marketLocationId => ⟨.times (.one .digit) 11, true⟩
  | meterLocationId => ⟨.seq (.one (.exactly 'D')) (.seq (.one (.exactly 'E'))
      (.seq (.times (.one .digit) 11) (.times (.one .capital) 20))), true⟩
  | networkLocationId =>
    ⟨.seq (.one (.exactly 'E')) (.seq (.times (.one .capital) 9) (.one .digit)), true⟩
  | transactionId => ⟨.seq (.times (.one .hexDigit) 8) (.seq (.one (.exactly '-'))
      (.seq (.times (.one .hexDigit) 4) (.seq (.one (.exactly '-'))
      (.seq (.times (.one .hexDigit) 4) (.seq (.one (.exactly '-'))
      (.seq (.times (.one .hexDigit) 4) (.seq (.one (.exactly '-'))
      (.times (.one .hexDigit) 12)))))))), true⟩
  | percentValue => ⟨percentExpression, true⟩
  | constLiteral => ⟨.seq (.optional (.one (.exactly '-')))
      (.seq decimalExpression (.optional exponentExpression)), true⟩
  | formulaVariable => ⟨.seq (.one .letter) (.many (.one .any)), false⟩

theorem text_published (kind : IdentifierKind) : kind.published.text = kind.pattern := by
  cases kind <;> decide +kernel

/-! ### Kinds -/

section Kinds

variable {s t : List Char} {k : CharClass} {a b : Regex} {n : Nat}

theorem mem_times_seq : s ∈ (seq (times (one k) n) b).language ↔
    n ≤ s.length ∧ (∀ c ∈ s.take n, k.holds c = true) ∧ s.drop n ∈ b.language := by
  rw [mem_seq]
  constructor
  · rintro ⟨t, ht, u, hu, rfl⟩
    obtain ⟨rfl, hall⟩ := mem_times_one.1 ht
    rw [List.length_append, List.take_left, List.drop_left]
    exact ⟨Nat.le_add_right _ _, hall, hu⟩
  · rintro ⟨hle, hall, hu⟩
    exact ⟨_, mem_times_one.2 ⟨List.length_take_of_le hle, hall⟩, _, hu, List.take_append_drop n s⟩

theorem isMarketLocation_iff :
    isMarketLocation s = true ↔ marketLocationId.published.Matches s := by
  simp only [Pattern.Matches, published, if_true, mem_times_one, CharClass.holds_digit,
    isMarketLocation, Bool.and_eq_true, decide_eq_true_eq, List.all_eq_true]

theorem isMeterLocation_iff :
    isMeterLocation s = true ↔ meterLocationId.published.Matches s := by
  simp only [Pattern.Matches, published, if_true, mem_exactly_seq, mem_times_seq, mem_times_one,
    CharClass.holds_capital, CharClass.holds_digit, List.length_drop]
  unfold isMeterLocation
  constructor
  · intro h
    split at h
    · simp only [Bool.and_eq_true, decide_eq_true_eq, List.all_eq_true] at h
      obtain ⟨⟨hlength, hdigits⟩, hcapitals⟩ := h
      exact ⟨_, ⟨_, ⟨by omega, hdigits, by omega, hcapitals⟩, rfl⟩, rfl⟩
    · cases h
  · rintro ⟨_, ⟨u, ⟨hle, hdigits, hlength, hcapitals⟩, rfl⟩, rfl⟩
    simp only [Bool.and_eq_true, decide_eq_true_eq, List.all_eq_true]
    exact ⟨⟨by omega, hdigits⟩, hcapitals⟩

theorem isNetworkLocation_iff :
    isNetworkLocation s = true ↔ networkLocationId.published.Matches s := by
  simp only [Pattern.Matches, published, if_true, mem_exactly_seq, mem_times_seq, mem_one,
    CharClass.holds_capital, CharClass.holds_digit]
  unfold isNetworkLocation
  constructor
  · intro h
    split at h
    · rename_i u
      simp only [Bool.and_eq_true, decide_eq_true_eq, List.all_eq_true] at h
      obtain ⟨⟨hlength, hcapitals⟩, hdigit⟩ := h
      have hlast : (u.drop 9).length = 1 := by rw [List.length_drop, hlength]
      obtain ⟨c, hc⟩ := List.length_eq_one_iff.1 hlast
      exact ⟨_, ⟨by omega, hcapitals, c, hdigit c (hc ▸ List.mem_singleton_self c), hc⟩, rfl⟩
    · cases h
  · rintro ⟨u, ⟨hle, hcapitals, c, hdigit, hc⟩, rfl⟩
    have hlast : (u.drop 9).length = 1 := by rw [hc]; rfl
    rw [List.length_drop] at hlast
    simp only [Bool.and_eq_true, decide_eq_true_eq, List.all_eq_true]
    refine ⟨⟨by omega, hcapitals⟩, fun d hd => ?_⟩
    rw [hc, List.mem_singleton] at hd
    exact hd ▸ hdigit

theorem mem_hexGroup : s ∈ (times (one .hexDigit) n).language ↔ IsHexGroup n s := by
  simp only [mem_times_one, CharClass.holds_hexDigit, IsHexGroup]

theorem mem_hexGroup_seq :
    s ∈ (seq (times (one .hexDigit) n) (seq (one (.exactly '-')) b)).language ↔
      ∃ group rest, IsHexGroup n group ∧ rest ∈ b.language ∧ s = group ++ '-' :: rest := by
  rw [mem_seq]
  simp only [mem_hexGroup, mem_exactly_seq]
  constructor
  · rintro ⟨group, hgroup, _, ⟨rest, hrest, rfl⟩, rfl⟩
    exact ⟨group, rest, hgroup, hrest, rfl⟩
  · rintro ⟨group, rest, hgroup, hrest, rfl⟩
    exact ⟨group, hgroup, _, ⟨rest, hrest, rfl⟩, rfl⟩

theorem isTransaction_iff_matches :
    isTransaction s = true ↔ transactionId.published.Matches s := by
  simp only [Pattern.Matches, published, if_true, mem_hexGroup_seq, mem_hexGroup, isTransaction,
    areHexGroups_iff (List.cons_ne_nil _ _), isHexGroups_cons_iff, isHexGroups_singleton_iff]

theorem isPercent_iff : isPercent s = true ↔ percentValue.published.Matches s := by
  simp only [Pattern.Matches, published, percentExpression, if_true, mem_either, mem_exactly_seq,
    mem_optional, mem_atLeastOnce_one, CharClass.holds_digit, CharClass.holds_exactly]
  unfold isPercent
  constructor
  · intro h
    split at h
    · exact .inl ⟨_, .inl rfl, rfl⟩
    · exact .inr ⟨_, .inl rfl, rfl⟩
    · simp only [Bool.and_eq_true, decide_eq_true_eq, List.all_eq_true] at h
      exact .inl ⟨_, .inr ⟨_, h, rfl⟩, rfl⟩
    · simp only [Bool.and_eq_true, decide_eq_true_eq, List.all_eq_true] at h
      exact .inr ⟨_, .inr ⟨_, h, rfl⟩, rfl⟩
    · cases h
  · rintro (⟨_, rfl | ⟨u, h, rfl⟩, rfl⟩ | ⟨_, rfl | ⟨u, h, rfl⟩, rfl⟩)
    · rfl
    · simpa only [Bool.and_eq_true, decide_eq_true_eq, List.all_eq_true] using h
    · rfl
    · simpa only [Bool.and_eq_true, decide_eq_true_eq, List.all_eq_true] using h

theorem isVariable_iff : isVariable s = true ↔ formulaVariable.published.Matches s := by
  simp only [Pattern.Matches, published, Bool.false_eq_true, if_false, mem_one_seq, mem_many_one,
    CharClass.holds_letter]
  unfold isVariable
  constructor
  · intro h
    split at h
    · rename_i c rest
      exact ⟨[c], ⟨c, [], h, nofun, rfl⟩, rest, rfl⟩
    · cases h
  · rintro ⟨_, ⟨c, t, hc, _, rfl⟩, rest, rfl⟩
    exact hc

/-! ### Literals -/

/-- Digits, at least one of them, with a sign or without. -/
theorem mem_signed_iff :
    s ∈ (seq (optional (one (.among [('+', '+'), ('-', '-')])))
        (atLeastOnce (one .digit))).language ↔
      (splitSign s).2 ≠ [] ∧ ∀ c ∈ (splitSign s).2, isDigit c = true := by
  simp only [mem_seq, mem_optional, mem_one, mem_atLeastOnce_one, CharClass.holds_digit,
    CharClass.holds_pair]
  constructor
  · rintro ⟨_, rfl | ⟨c, rfl | rfl, rfl⟩, u, hu, rfl⟩
    · -- no sign is a digit
      obtain ⟨d, rest, rfl⟩ := List.exists_cons_of_ne_nil hu.1
      have hd := hu.2 d List.mem_cons_self
      have hsplit : splitSign (d :: rest) = (false, d :: rest) := by
        unfold splitSign
        split
        · rename_i heq
          cases heq
          exact absurd hd (by decide)
        · rename_i heq
          cases heq
          exact absurd hd (by decide)
        · rfl
      rw [List.nil_append, hsplit]
      exact hu
    · exact hu
    · exact hu
  · intro h
    unfold splitSign at h
    split at h
    · exact ⟨['-'], .inr ⟨_, .inr rfl, rfl⟩, _, h, rfl⟩
    · exact ⟨['+'], .inr ⟨_, .inl rfl, rfl⟩, _, h, rfl⟩
    · exact ⟨[], .inl rfl, _, h, rfl⟩

theorem mem_exponent_iff :
    s ∈ (optional exponentExpression).language ↔ (readExponent? s).isSome = true := by
  simp only [exponentExpression, mem_optional, mem_one_seq, mem_signed_iff, CharClass.holds_pair]
  cases s with
  | nil => simp [readExponent?]
  | cons e r =>
    have hdigits : (splitSign r).2 ≠ [] ∧ (splitSign r).2.all isDigit = true ↔
        (splitSign r).2 ≠ [] ∧ ∀ c ∈ (splitSign r).2, isDigit c = true := by
      rw [List.all_eq_true]
    have hread : (readExponent? (e :: r)).isSome = true ↔ (e = 'e' ∨ e = 'E') ∧
        (splitSign r).2 ≠ [] ∧ (splitSign r).2.all isDigit = true := by
      unfold readExponent?
      by_cases he : e = 'e' ∨ e = 'E'
      · by_cases hd : (splitSign r).2 ≠ [] ∧ (splitSign r).2.all isDigit = true <;> simp_all
      · simp_all
    rw [hread, hdigits]
    constructor
    · rintro (h | ⟨c, t, hc, ht, h⟩)
      · cases h
      · cases h
        exact ⟨hc, ht⟩
    · rintro ⟨he, ht⟩
      exact .inr ⟨e, r, he, ht, rfl⟩

/-- What may follow the digits of a decimal is neither a digit nor a point. -/
theorem head_of_mem_exponent (h : s ∈ (optional exponentExpression).language) :
    ∀ c ∈ s.head?, isDigit c = false ∧ c ≠ '.' := by
  rw [exponentExpression, mem_optional, mem_one_seq] at h
  rintro c hc
  obtain rfl | ⟨e, t, he, _, rfl⟩ := h
  · cases hc
  · cases hc
    obtain rfl | rfl := CharClass.holds_pair.1 he <;> decide

theorem splitFraction_of_ne (h : ∀ r, s ≠ '.' :: r) : splitFraction s = ([], s) := by
  unfold splitFraction
  split
  · exact absurd rfl (h _)
  · rfl

/-- A decimal is read part by part. -/
theorem isSome_readDecimal?_iff {whole fraction rest tail : List Char}
    (hspan : spanDigits s = (whole, rest)) (hsplit : splitFraction rest = (fraction, tail)) :
    (readDecimal? s).isSome = true ↔
      (whole ≠ [] ∨ fraction ≠ []) ∧ tail ∈ (optional exponentExpression).language := by
  rw [readDecimal?, hspan]
  dsimp only
  rw [hsplit, mem_exponent_iff]
  dsimp only
  split
  · rename_i h
    simp [h.1, h.2]
  · rename_i h
    rw [not_and_or] at h
    simp only [Option.isSome_map, iff_and_self]
    exact fun _ => h

/-- Digits and a point between them, at least one digit on either side of it, or no point. -/
theorem mem_decimalExpression_iff : s ∈ decimalExpression.language ↔
    (s ≠ [] ∧ ∀ c ∈ s, isDigit c = true) ∨
      ∃ whole fraction, (whole ≠ [] ∨ fraction ≠ []) ∧ (∀ c ∈ whole, isDigit c = true) ∧
        (∀ c ∈ fraction, isDigit c = true) ∧ s = whole ++ '.' :: fraction := by
  -- digits, and behind a point whatever the pattern `a` asks for
  have hpoint (a : Regex) : s ∈ (seq (atLeastOnce (one .digit))
        (optional (seq (one (.exactly '.')) a))).language ↔
      (s ≠ [] ∧ ∀ c ∈ s, isDigit c = true) ∨ ∃ whole fraction, fraction ∈ a.language ∧
        (whole ≠ [] ∧ ∀ c ∈ whole, isDigit c = true) ∧ s = whole ++ '.' :: fraction := by
    rw [mem_seq]
    simp only [mem_atLeastOnce_one, mem_optional, mem_exactly_seq, CharClass.holds_digit]
    constructor
    · rintro ⟨whole, hwhole, _, rfl | ⟨fraction, hfraction, rfl⟩, rfl⟩
      · rw [List.append_nil]
        exact .inl hwhole
      · exact .inr ⟨whole, fraction, hfraction, hwhole, rfl⟩
    · rintro (h | ⟨whole, fraction, hfraction, hwhole, rfl⟩)
      · exact ⟨s, h, [], .inl rfl, List.append_nil s⟩
      · exact ⟨whole, hwhole, _, .inr ⟨fraction, hfraction, rfl⟩, rfl⟩
  rw [decimalExpression, mem_either, hpoint]
  simp only [mem_exactly_seq, mem_many_one, mem_atLeastOnce_one, CharClass.holds_digit]
  constructor
  · rintro ((h | ⟨whole, fraction, hfraction, hwhole, rfl⟩) | ⟨fraction, hfraction, rfl⟩)
    · exact .inl h
    · exact .inr ⟨whole, fraction, .inl hwhole.1, hwhole.2, hfraction, rfl⟩
    · exact .inr ⟨[], fraction, .inr hfraction.1, nofun, hfraction.2, rfl⟩
  · rintro (h | ⟨whole, fraction, hne, hwhole, hfraction, rfl⟩)
    · exact .inl (.inl h)
    · by_cases hempty : whole = []
      · subst hempty
        exact .inr ⟨fraction, ⟨hne.resolve_left (absurd rfl), hfraction⟩, rfl⟩
      · exact .inl (.inr ⟨whole, fraction, hfraction, ⟨hempty, hwhole⟩, rfl⟩)

theorem isSome_readDecimal?_of_mem
    (h : s ∈ (seq decimalExpression (optional exponentExpression)).language) :
    (readDecimal? s).isSome = true := by
  obtain ⟨t, ht, u, hu, rfl⟩ := mem_seq.1 h
  have hhead := head_of_mem_exponent hu
  have hdigit : ∀ c ∈ u.head?, isDigit c = false := fun c hc => (hhead c hc).1
  rcases mem_decimalExpression_iff.1 ht with
    ⟨hne, ht⟩ | ⟨whole, fraction, hne, hwhole, hfraction, rfl⟩
  · have hsplit : splitFraction u = ([], u) :=
      splitFraction_of_ne fun r hr => (hhead '.' (hr ▸ rfl)).2 rfl
    exact (isSome_readDecimal?_iff (spanDigits_of_digits ht hdigit) hsplit).2 ⟨.inl hne, hu⟩
  · have hspan : spanDigits ((whole ++ '.' :: fraction) ++ u) =
        (whole, '.' :: (fraction ++ u)) := by
      rw [List.append_assoc]
      refine spanDigits_of_digits hwhole fun c hc => ?_
      cases hc
      decide
    exact (isSome_readDecimal?_iff hspan (spanDigits_of_digits hfraction hdigit)).2 ⟨hne, hu⟩

theorem mem_of_isSome_readDecimal? (h : (readDecimal? s).isSome = true) :
    s ∈ (seq decimalExpression (optional exponentExpression)).language := by
  rw [mem_seq]
  obtain ⟨whole, rest, hspan⟩ : ∃ whole rest, spanDigits s = (whole, rest) := ⟨_, _, rfl⟩
  obtain ⟨happend, hwhole⟩ := append_of_spanDigits hspan
  by_cases hpoint : ∃ r, rest = '.' :: r
  · obtain ⟨r, rfl⟩ := hpoint
    obtain ⟨fraction, tail, hfraction⟩ : ∃ fraction tail, spanDigits r = (fraction, tail) :=
      ⟨_, _, rfl⟩
    obtain ⟨hne, htail⟩ := (isSome_readDecimal?_iff hspan hfraction).1 h
    obtain ⟨rfl, hdigits⟩ := append_of_spanDigits hfraction
    refine ⟨whole ++ '.' :: fraction, mem_decimalExpression_iff.2
      (.inr ⟨whole, fraction, hne, hwhole, hdigits, rfl⟩), tail, htail, ?_⟩
    rw [happend, List.append_assoc, List.cons_append]
  · have hsplit := splitFraction_of_ne fun r hr => hpoint ⟨r, hr⟩
    obtain ⟨hne, htail⟩ := (isSome_readDecimal?_iff hspan hsplit).1 h
    exact ⟨whole, mem_decimalExpression_iff.2 (.inl ⟨hne.resolve_right (absurd rfl), hwhole⟩),
      rest, htail, happend.symm⟩

theorem mem_decimal_iff : s ∈ (seq decimalExpression (optional exponentExpression)).language ↔
    (readDecimal? s).isSome = true :=
  ⟨isSome_readDecimal?_of_mem, mem_of_isSome_readDecimal?⟩

theorem isConstant_iff : isConstant s = true ↔ constLiteral.published.Matches s := by
  simp only [Pattern.Matches, published, if_true]
  rw [mem_seq]
  simp only [mem_optional, mem_one, mem_decimal_iff, CharClass.holds_exactly]
  unfold isConstant
  constructor
  · intro h
    split at h
    · exact ⟨['-'], .inr ⟨_, rfl, rfl⟩, _, h, rfl⟩
    · exact ⟨[], .inl rfl, _, h, rfl⟩
  · rintro ⟨_, rfl | ⟨_, rfl, rfl⟩, u, hu, rfl⟩
    · split
      · -- no decimal begins with a minus sign
        rename_i heq
        rw [List.nil_append] at heq
        rw [heq, readDecimal?_eq_none_of_head (by decide) (by decide)] at hu
        cases hu
      · exact hu
    · exact hu

end Kinds

/-! ### Main result -/

/-- A kind admits exactly the texts that its published pattern matches. -/
theorem admits_iff_matches (kind : IdentifierKind) (text : String) :
    kind.admits text = true ↔ kind.published.Matches text.toList := by
  cases kind with
  | marketLocationId => exact isMarketLocation_iff
  | meterLocationId => exact isMeterLocation_iff
  | networkLocationId => exact isNetworkLocation_iff
  | transactionId => exact isTransaction_iff_matches
  | percentValue => exact isPercent_iff
  | constLiteral => exact isConstant_iff
  | formulaVariable => exact isVariable_iff

end IdentifierKind

end EnergyFormula
