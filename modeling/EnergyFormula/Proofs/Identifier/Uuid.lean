import EnergyFormula.Identifier.Typed
import EnergyFormula.Proofs.Outcome
import Mathlib.Data.List.Forall2
import Mathlib.Data.List.Infix

/-!
# Identifiers of transactions

The textual form of a universally unique identifier (`IsUuid`) is what the pattern of transactions
admits, and every text in this form is read (`TransactionId.decided_parse`): the hyphens stand where
they are looked for, and the digits between them are the 32 of an identifier, which is written as it
was read but for the letter case.
-/

namespace EnergyFormula

open Text

/-! ### Groups of digits -/

/-- A group of `n` hexadecimal digits. -/
def IsHexGroup (n : Nat) (s : List Char) : Prop :=
  s.length = n ∧ ∀ c ∈ s, isHexDigit c = true

/-- Groups of hexadecimal digits of the given sizes, with a hyphen between any two. -/
def IsHexGroups (sizes : List Nat) (s : List Char) : Prop :=
  ∃ groups, List.Forall₂ IsHexGroup sizes groups ∧ s = ['-'].intercalate groups

section Groups

variable {n m : Nat} {sizes : List Nat} {s : List Char}

theorem isHexGroups_singleton_iff : IsHexGroups [n] s ↔ IsHexGroup n s := by
  simp [IsHexGroups, List.forall₂_cons_left_iff]

theorem isHexGroups_cons_iff : IsHexGroups (n :: m :: sizes) s ↔
    ∃ group rest, IsHexGroup n group ∧ IsHexGroups (m :: sizes) rest ∧ s = group ++ '-' :: rest := by
  constructor
  · rintro ⟨_, hgroups, rfl⟩
    obtain ⟨group, _, hgroup, htail, rfl⟩ := List.forall₂_cons_left_iff.1 hgroups
    obtain ⟨next, groups, hnext, hrest, rfl⟩ := List.forall₂_cons_left_iff.1 htail
    exact ⟨group, _, hgroup, ⟨next :: groups, .cons hnext hrest, rfl⟩,
      by rw [List.intercalate_cons_cons, List.append_assoc]; rfl⟩
  · rintro ⟨group, _, hgroup, ⟨_, hgroups, rfl⟩, rfl⟩
    obtain ⟨next, groups, hnext, hrest, rfl⟩ := List.forall₂_cons_left_iff.1 hgroups
    exact ⟨group :: next :: groups, .cons hgroup (.cons hnext hrest),
      by rw [List.intercalate_cons_cons, List.append_assoc]; rfl⟩

theorem areHexGroups_cons_iff : IdentifierKind.areHexGroups (n :: m :: sizes) s = true ↔
    ∃ group rest, IsHexGroup n group ∧ IdentifierKind.areHexGroups (m :: sizes) rest = true ∧
      s = group ++ '-' :: rest := by
  rw [IdentifierKind.areHexGroups.eq_3 _ _ _ (List.cons_ne_nil m sizes)]
  constructor
  · intro h
    split at h
    · rename_i rest hrest
      simp only [Bool.and_eq_true, decide_eq_true_eq, List.all_eq_true] at h
      refine ⟨s.take n, rest, h.1, h.2, ?_⟩
      rw [← hrest, List.take_append_drop]
    · simp at h
  · rintro ⟨group, rest, hgroup, hrest, rfl⟩
    rw [List.take_left' hgroup.1, List.drop_left' hgroup.1]
    simp only [Bool.and_eq_true, decide_eq_true_eq, List.all_eq_true]
    exact ⟨hgroup, hrest⟩

theorem areHexGroups_iff (hne : sizes ≠ []) :
    IdentifierKind.areHexGroups sizes s = true ↔ IsHexGroups sizes s := by
  induction sizes generalizing s with
  | nil => exact absurd rfl hne
  | cons n sizes ih =>
    cases sizes with
    | nil => simp [isHexGroups_singleton_iff, IdentifierKind.areHexGroups, IsHexGroup]
    | cons m sizes =>
      simp only [areHexGroups_cons_iff, isHexGroups_cons_iff, ih (List.cons_ne_nil m sizes)]

end Groups

/-- The textual form of a universally unique identifier. -/
def IsUuid (text : String) : Prop :=
  IsHexGroups [8, 4, 4, 4, 12] text.toList

theorem isUuid_iff_isTransaction {text : String} :
    IsUuid text ↔ IdentifierKind.isTransaction text.toList = true :=
  (areHexGroups_iff (List.cons_ne_nil _ _)).symm

instance (text : String) : Decidable (IsUuid text) :=
  decidable_of_iff _ isUuid_iff_isTransaction.symm

/-! ### Reading an identifier -/

namespace Uuid

variable {s : List Char}

/-- The digits of an identifier are found again between the hyphens. -/
theorem parse?_hyphenate (hs : s.length = 32) : parse? (hyphenate s) = ofDigits? s := by
  unfold parse?
  rw [length_hyphenate hs, if_neg (by decide), if_pos rfl, ofGroups?, joinGroups?_hyphenate hs]
  rfl

/-- Hexadecimal digits are read, and written in lower case. -/
theorem exists_mapM_hexValue? (hhex : ∀ c ∈ s, isHexDigit c = true) :
    ∃ digits, s.mapM hexValue? = some digits ∧
      digits.map (fun d : Fin 16 => hexDigit d) = s.map Char.toLower := by
  induction s with
  | nil => exact ⟨[], rfl, rfl⟩
  | cons c s ih =>
    have hc := hhex c List.mem_cons_self
    rw [← isSome_hexValue?] at hc
    obtain ⟨d, hd⟩ := Option.isSome_iff_exists.1 hc
    obtain ⟨digits, hdigits, hlower⟩ := ih fun x hx => hhex x (List.mem_cons_of_mem c hx)
    refine ⟨d :: digits, ?_, ?_⟩
    · simp [hd, hdigits]
    · rw [List.map_cons, List.map_cons, hexDigit_of_hexValue? hd, hlower]

/-- An identifier is written as its digits were read, in lower case. -/
theorem exists_ofDigits? (hs : s.length = 32) (hhex : ∀ c ∈ s, isHexDigit c = true) :
    ∃ u, ofDigits? s = some u ∧ u.text = String.ofList (hyphenate (s.map Char.toLower)) := by
  obtain ⟨digits, hdigits, hlower⟩ := exists_mapM_hexValue? hhex
  have hlength : digits.length = 32 := by
    have h := congrArg List.length hlower
    rwa [List.length_map, List.length_map, hs] at h
  refine ⟨⟨digits, hlength⟩, ?_, ?_⟩
  · simp [ofDigits?, hdigits, hlength]
  · rw [text, hlower]

/-- The digits that an identifier is written with are its own. -/
theorem ofDigits?_map_hexDigit (u : Uuid) :
    ofDigits? (u.digits.map fun d : Fin 16 => hexDigit d) = some u := by
  have hread (digits : List (Fin 16)) :
      (digits.map fun d : Fin 16 => hexDigit d).mapM hexValue? = some digits := by
    induction digits with
    | nil => rfl
    | cons d digits ih => simp [hexValue?_hexDigit, ih]
  simp [ofDigits?, hread, u.length_digits]

end Uuid

theorem isTransaction_iff {s : List Char} : IdentifierKind.isTransaction s = true ↔
    ∃ digits, digits.length = 32 ∧ (∀ c ∈ digits, isHexDigit c = true) ∧
      s = Uuid.hyphenate digits := by
  unfold IdentifierKind.isTransaction
  simp only [areHexGroups_iff (List.cons_ne_nil _ _), isHexGroups_cons_iff,
    isHexGroups_singleton_iff]
  constructor
  · rintro ⟨a, _, ha, ⟨b, _, hb, ⟨c, _, hc, ⟨d, e, hd, he, rfl⟩, rfl⟩, rfl⟩, rfl⟩
    refine ⟨a ++ (b ++ (c ++ (d ++ e))), ?_, ?_, ?_⟩
    · simp [ha.1, hb.1, hc.1, hd.1, he.1]
    · simp only [List.mem_append]
      rintro x (hx | hx | hx | hx | hx)
      exacts [ha.2 x hx, hb.2 x hx, hc.2 x hx, hd.2 x hx, he.2 x hx]
    · simp [Uuid.hyphenate, ha.1, hb.1, hc.1, hd.1, List.drop_append, List.drop_of_length_le]
  · rintro ⟨digits, hlength, hhex, rfl⟩
    have hgroup (i n : Nat) (h : i + n ≤ 32) : IsHexGroup n ((digits.drop i).take n) := by
      refine ⟨?_, fun c hc => hhex c (List.mem_of_mem_drop (List.mem_of_mem_take hc))⟩
      rw [List.length_take, List.length_drop, hlength]
      omega
    have hlast : IsHexGroup 12 (digits.drop 20) := by
      have h := hgroup 20 12 (by decide)
      rwa [List.take_of_length_le (by rw [List.length_drop, hlength])] at h
    exact ⟨_, _, hgroup 0 8 (by decide), ⟨_, _, hgroup 8 4 (by decide), ⟨_, _,
      hgroup 12 4 (by decide), ⟨_, _, hgroup 16 4 (by decide), hlast, rfl⟩, rfl⟩, rfl⟩, rfl⟩

namespace TransactionId

/-- Exactly the texts in the form of an identifier are read; letter case is not kept. -/
theorem decided_parse (text : String) :
    DecidedBy (IdentifierKind.transactionId.admits text = true)
      (fun id : TransactionId => id.text = Text.lower text) ⟨.transactionId, text⟩
      (TransactionId.parse text) := by
  unfold TransactionId.parse
  split
  · rename_i h
    obtain ⟨digits, hlength, hhex, htext⟩ := isTransaction_iff.1 h
    obtain ⟨u, hu, hlower⟩ := Uuid.exists_ofDigits? hlength hhex
    rw [htext, Uuid.parse?_hyphenate hlength, hu]
    refine .ok h ?_
    rw [TransactionId.text, hlower, Text.lower, htext, Uuid.map_hyphenate (by decide)]
  · rename_i h
    exact .error h

/-- The text of an id is read back. -/
theorem parse_text (id : TransactionId) : TransactionId.parse id.text = .ok id := by
  have hlength : (id.uuid.digits.map fun d : Fin 16 => hexDigit d).length = 32 := by
    rw [List.length_map, id.uuid.length_digits]
  have htext : id.text.toList = Uuid.hyphenate (id.uuid.digits.map fun d : Fin 16 => hexDigit d) :=
    String.toList_ofList
  have hadmits : IdentifierKind.transactionId.admits id.text = true := by
    refine isTransaction_iff.2 ⟨_, hlength, fun c hc => ?_, htext⟩
    obtain ⟨d, _, rfl⟩ := List.mem_map.1 hc
    rw [← isSome_hexValue?, hexValue?_hexDigit]
    rfl
  rw [TransactionId.parse, if_pos hadmits, htext, Uuid.parse?_hyphenate hlength,
    Uuid.ofDigits?_map_hexDigit]

theorem exists_parse_iff (text : String) :
    (∃ id, TransactionId.parse text = .ok id) ↔ IsUuid text := by
  rw [isUuid_iff_isTransaction]
  exact (decided_parse text).exists_ok_iff

end TransactionId

end EnergyFormula
