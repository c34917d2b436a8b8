import EnergyFormula.Conversion.Lowering
import EnergyFormula.Document.Identifier
import EnergyFormula.Proofs.Formula.Part
import EnergyFormula.Proofs.Identifier.Literal
import EnergyFormula.Proofs.Identifier.Pattern
import EnergyFormula.Proofs.Number.Literal
import EnergyFormula.Proofs.Outcome
import EnergyFormula.Validation.Formula

/-!
# Constants carry their value in their text

Only the text of a constant stands in a document, so its value has to be found in the text again
(`ConstLiteral.CarriesValue`).  It is, however the constant was obtained
(`ConstLiteral.text_carries_value`): either its value was read from the text, or the text was written
with the digits that read back.

A JSON number goes through its text as well.  Nothing of it is lost on this way
(`ConstLiteral.eq_of_ofJson`), neither with an exponent nor in an integer of more digits than a
float can keep.
-/

namespace EnergyFormula

open Number

namespace ConstLiteral

/-- The text of the literal is in the published pattern and is read as its value, which is finite. -/
structure CarriesValue (c : ConstLiteral) : Prop where
  published : IdentifierKind.constLiteral.published.Matches c.text.toList
  finite : c.value.isFinite = true
  read : read? c.text = some c.value
  parsed : parse c.text = .ok c

theorem carriesValue (c : ConstLiteral) : c.CarriesValue where
  published := (IdentifierKind.constLiteral.admits_iff_matches c.text).1 c.admitted
  finite := c.finite
  read := c.read?_text
  parsed := c.parse_text

/-! ### Literals of JSON numbers -/

variable {v : Json} {x : Float} {c : ConstLiteral}

/-- A JSON number goes through its text. -/
theorem ofJson_of_toFloat? (h : v.toFloat? = some x) : ofJson v = parse v.compact := by
  cases v with
  | integer n => rfl
  | float y => rfl
  | _ => cases h

/-- The literal of a JSON number has the text and the value of the number. -/
theorem eq_of_ofJson (h : v.toFloat? = some x) (hc : ofJson v = .ok c) :
    c.text = v.compact ∧ c.value = x := by
  rw [ofJson_of_toFloat? h] at hc
  have htext := parse_eq_ok_iff.1 hc
  refine ⟨htext, ?_⟩
  have hread := c.read?_text
  rw [htext] at hread
  rcases spells_compact h with hspells | ⟨hword, -⟩
  · have hspelled : read? v.compact = some x := hspells.readChars?
    rw [hspelled] at hread
    exact (Option.some.inj hread).symm
  · -- the word for what is not finite is not in the pattern
    have hwords : ∀ s ∈ [['N', 'a', 'N'], ['-', 'i', 'n', 'f'], ['i', 'n', 'f']],
        IdentifierKind.isConstant s = false := by
      decide +kernel
    have hadmitted := c.admitted
    rw [htext, hword, IdentifierKind.admits, String.toList_ofList,
      hwords _ (nonFiniteText_mem x)] at hadmitted
    cases hadmitted

/-- Exactly the JSON numbers with a finite value are literals. -/
theorem exists_ofJson_iff (h : v.toFloat? = some x) :
    (∃ c, ofJson v = .ok c) ↔ x.isFinite = true := by
  constructor
  · rintro ⟨c, hc⟩
    rw [← (eq_of_ofJson h hc).2]
    exact c.finite
  · intro hx
    rcases spells_compact h with hspells | ⟨-, hinfinite⟩
    · rw [ofJson_of_toFloat? h]
      exact ⟨⟨v.compact, x, IdentifierKind.isConstant_of_spells hspells, hx, .inl hspells.readChars?⟩,
        parse_eq_ok_iff.2 rfl⟩
    · rw [hx] at hinfinite
      cases hinfinite

/-- A literal is read from its own text, which stands in the document as a string. -/
theorem eq_of_read (h : ConstLiteral.read v = .ok c) : v = .string c.text := by
  cases v with
  | string s =>
    have hparse : parse s = .ok c := mapError_eq_ok_iff.1 h
    rw [parse_eq_ok_iff.1 hparse]
  | _ => cases h

end ConstLiteral

/-! ### Main result -/

/-- The text of every literal carries its value, whether the literal comes from a number, a text, a
string or a number of a document, or an expression that is lowered.  Every finite number has a literal
with this value, and so has every JSON number with a finite value. -/
theorem ConstLiteral.text_carries_value :
    IdentifierKind.constLiteral.published.text = IdentifierKind.constLiteral.pattern ∧
    (∀ c : ConstLiteral, c.CarriesValue) ∧
    (∀ x : Float, ((∃ c, ofNumber x = .ok c) ↔ x.isFinite = true) ∧
      ∀ c, ofNumber x = .ok c → c.value = x) ∧
    (∀ s c, parse s = .ok c → c.text = s) ∧
    (∀ v c, ConstLiteral.read v = .ok c → v = .string c.text) ∧
    ∀ v x, v.toFloat? = some x → ((∃ c, ofJson v = .ok c) ↔ x.isFinite = true) ∧
      ∀ c, ofJson v = .ok c → c.text = v.compact ∧ c.value = x :=
  ⟨IdentifierKind.constLiteral.text_published, carriesValue,
    fun _ => ⟨exists_ofNumber_iff, fun _ => value_of_ofNumber⟩, fun _ _ => parse_eq_ok_iff.1,
    fun _ _ => eq_of_read, fun _ _ hx => ⟨exists_ofJson_iff hx, fun _ => eq_of_ofJson hx⟩⟩

/-- One way each: a small number, a text with an exponent, a string, an integer of more than 53 bits,
whose value is its even neighbour, and a factor that is lowered. -/
theorem ConstLiteral.text_carries_value_samples :
    (∃ c, ofNumber (-0.000001) = .ok c ∧ c.value = -0.000001 ∧ c.CarriesValue) ∧
      (∃ c, parse "1.5e3" = .ok c ∧ c.text = "1.5e3" ∧ c.CarriesValue) ∧
      (ConstLiteral.read (.string "0.1") = .ok tenth ∧ tenth.CarriesValue) ∧
      (∃ c, ofJson (.integer 9007199254740993) = .ok c ∧ c.text = "9007199254740993" ∧
        c.value = 9007199254740992 ∧ c.CarriesValue) ∧
      ∃ c, (Expression.apply .groupedSum [.series "x" 0.5]).lower [] =
        .ok (.mul [.variable .x, .constant c]) ∧ c.CarriesValue := by
  obtain ⟨-, hcarries, hnumber, hparse, -, hjson⟩ := text_carries_value
  have hvalue : (Json.integer 9007199254740993).toFloat? = some 9007199254740992 := rfl
  refine ⟨?_, ?_, ⟨rfl, hcarries tenth⟩, ?_,
    ⟨⟨"0.5", 0.5, by decide, by decide, .inl rfl⟩, rfl, hcarries _⟩⟩
  · obtain ⟨c, hc⟩ := (hnumber (-0.000001)).1.2 (by decide)
    exact ⟨c, hc, (hnumber _).2 c hc, hcarries c⟩
  · have hsome : (parse "1.5e3").toOption.isSome = true := by decide +kernel
    obtain ⟨c, hc⟩ := exists_ok_of_isSome hsome
    exact ⟨c, hc, hparse _ c hc, hcarries c⟩
  · obtain ⟨c, hc⟩ := (hjson _ _ hvalue).1.2 (by decide)
    obtain ⟨htext, hc'⟩ := (hjson _ _ hvalue).2 c hc
    exact ⟨c, hc, htext, hc', hcarries c⟩

end EnergyFormula
