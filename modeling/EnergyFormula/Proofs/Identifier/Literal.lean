import EnergyFormula.Identifier.Typed
import EnergyFormula.Proofs.Number.ReadBack

/-!
# Literals and their numbers

The text of a literal is read as its number (`ConstLiteral.read?_text`), also if it was written for
the number, so a literal is found again from its text alone (`ConstLiteral.parse_text`).  Every finite
number has a literal (`ConstLiteral.exists_ofNumber_iff`): its plain text is always a decimal with an
optional minus sign.
-/

namespace EnergyFormula

/-- A decimal that begins with a digit is admitted as a literal, with a minus sign before it or
without one. -/
theorem IdentifierKind.isConstant_of_spells {s : List Char} {x : Float}
    (h : Number.Spells s x) : isConstant s = true := by
  obtain ⟨negative, d, digits, hd, rfl, -⟩ := h
  have hsome : (Number.readDecimal? digits).isSome = true := by
    rw [hd.read]
    rfl
  obtain ⟨c, rest, rfl, hc⟩ := hd.head
  cases negative with
  | true => exact hsome
  | false =>
    -- the first digit is no sign
    show isConstant (c :: rest) = true
    unfold isConstant
    split
    · rename_i heq
      cases heq
      cases hc
    · exact hsome

/-- The plain text of a finite number is admitted as a literal. -/
theorem IdentifierKind.admits_plain {x : Float} (hx : x.isFinite = true) :
    constLiteral.admits (Number.plain x) = true := by
  rw [admits, Number.plain, String.toList_ofList]
  exact isConstant_of_spells (Number.spells_plainChars hx)

namespace ConstLiteral

/-- The text of a literal is read as its number. -/
theorem read?_text (c : ConstLiteral) : Number.read? c.text = some c.value := by
  rcases c.denotes with h | h
  · exact h
  · rw [h, Number.read?_plain c.finite]

/-- A literal is found again from its text. -/
theorem parse_text (c : ConstLiteral) : parse c.text = .ok c := by
  unfold parse
  rw [dif_pos c.admitted]
  split
  · rename_i x hread
    rw [c.read?_text, Option.some.injEq] at hread
    subst hread
    rw [dif_pos c.finite]
  · rename_i hread
    rw [c.read?_text] at hread
    cases hread

/-- A literal is read exactly from its own text. -/
theorem parse_eq_ok_iff {s : String} {c : ConstLiteral} : parse s = .ok c ↔ c.text = s := by
  constructor
  · intro h
    unfold parse at h
    split at h
    · split at h
      · split at h
        · cases h
          rfl
        · cases h
      · cases h
    · cases h
  · rintro rfl
    exact c.parse_text

/-- The literal of a number has the text of the number. -/
theorem ofNumber_eq_ok_iff {x : Float} {c : ConstLiteral} :
    ofNumber x = .ok c ↔ c.text = Number.plain x ∧ c.value = x := by
  constructor
  · intro h
    unfold ofNumber at h
    dsimp only at h
    split at h
    · split at h
      · cases h
        exact ⟨rfl, rfl⟩
      · cases h
    · cases h
  · rintro ⟨htext, rfl⟩
    obtain ⟨text, value, admitted, finite, _⟩ := c
    obtain rfl : text = Number.plain value := htext
    rw [ofNumber, dif_pos finite, dif_pos admitted]

/-! ### Numbers -/

theorem value_of_ofNumber {x : Float} {c : ConstLiteral} (h : ofNumber x = .ok c) :
    c.value = x :=
  (ofNumber_eq_ok_iff.1 h).2

theorem isFinite_of_ofNumber {x : Float} {c : ConstLiteral} (h : ofNumber x = .ok c) :
    x.isFinite = true := by
  rw [← value_of_ofNumber h]
  exact c.finite

/-- Exactly the finite numbers have a literal. -/
theorem exists_ofNumber_iff {x : Float} : (∃ c, ofNumber x = .ok c) ↔ x.isFinite = true := by
  constructor
  · rintro ⟨c, hc⟩
    exact isFinite_of_ofNumber hc
  · intro hx
    exact ⟨⟨Number.plain x, x, IdentifierKind.admits_plain hx, hx, .inr rfl⟩,
      ofNumber_eq_ok_iff.2 ⟨rfl, rfl⟩⟩

end ConstLiteral

end EnergyFormula
