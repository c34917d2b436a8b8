import EnergyFormula.Proofs.Identifier.Pattern
import EnergyFormula.Proofs.Number.Exact

/-!
# Patterns and readers agree

A text is checked against the pattern of its kind and then, for transactions, shares and literals,
read a second time.  A text in the form of an identifier is always read
(`TransactionId.decided_parse`).  A text in the pattern of shares denotes a number from zero to one
(`exists_mem_unit`), so it is never refused either (`Percent.decided_parse`).  A literal is refused
exactly if its number overflows (`ConstLiteral.decided_parse`).
-/

namespace EnergyFormula

open Text Number

/-! ### Identifiers -/

theorem Identifier.decided_parse (kind : IdentifierKind) (text : String) :
    DecidedBy (kind.admits text = true) (fun id : Identifier kind => id.text = text) ⟨kind, text⟩
      (Identifier.parse kind text) := by
  unfold Identifier.parse
  split
  · rename_i h
    exact .ok h rfl
  · rename_i h
    exact .error h

/-! ### Shares -/

/-- Digits behind a zero and a point denote a number that is not greater than one. -/
theorem exists_mem_unit_of_places {first : Char} {places : List Char}
    (hfirst : isDigit first = true) (hplaces : ∀ c ∈ places, isDigit c = true)
    (hvalue : digitsValue (first :: places) ≤ 10 ^ places.length) :
    ∃ d, readDecimal? (first :: '.' :: places) = some d ∧ d.value ≤ 1 := by
  have hread := Decimal.isReadFrom_places (List.cons_ne_nil first [])
    (fun c hc => List.mem_singleton.1 hc ▸ hfirst) hplaces
  refine ⟨_, hread.read, ?_⟩
  have hten : (0 : ℚ) < 10 ^ places.length := by positivity
  show (digitsValue ([first] ++ places) : ℚ) * 10 ^ (-(places.length : Int)) ≤ 1
  rw [zpow_neg, zpow_natCast, ← div_eq_mul_inv, div_le_one hten]
  exact_mod_cast hvalue

/-- A text in the pattern of shares has no sign and denotes a number that is not greater than
one. -/
theorem exists_mem_unit {s : List Char} (h : IdentifierKind.isPercent s = true) :
    splitSign s = (false, s) ∧ ∃ d, readDecimal? s = some d ∧ d.value ≤ 1 := by
  unfold IdentifierKind.isPercent at h
  split at h
  · exact ⟨rfl, ⟨0, 0⟩, rfl, by simp [Decimal.value]⟩
  · exact ⟨rfl, ⟨1, 0⟩, rfl, by simp [Decimal.value]⟩
  · rename_i places
    rw [Bool.and_eq_true, List.all_eq_true] at h
    refine ⟨rfl, exists_mem_unit_of_places (by decide) h.2 ?_⟩
    exact (digitsValue_lt h.2).le
  · rename_i places
    rw [Bool.and_eq_true, List.all_eq_true] at h
    have hzeros : places = List.replicate places.length '0' :=
      List.eq_replicate_of_mem fun c hc => of_decide_eq_true (h.2 c hc)
    refine ⟨rfl, exists_mem_unit_of_places (by decide) (fun c hc => ?_) ?_⟩
    · rw [of_decide_eq_true (h.2 c hc)]
      decide
    · have hone : digitsValue ['1'] = 1 := rfl
      have hvalue := Decimal.digitsValue_zeros ['1'] places.length
      rw [hone, one_mul] at hvalue
      rw [hzeros, List.length_replicate]
      exact hvalue.le
  · cases h

/-- A text in the pattern of shares is a share. -/
theorem Percent.decided_parse (text : String) :
    DecidedBy (IdentifierKind.percentValue.admits text = true)
      (fun p : Percent => read? text = some p.value) ⟨.percentValue, text⟩ (Percent.parse text) := by
  unfold Percent.parse
  split
  · rename_i h
    obtain ⟨hsign, d, hd, hle⟩ := exists_mem_unit h
    have hread : read? text = some d.toFloat := by
      rw [read?, readChars?, hsign]
      dsimp only
      rw [readUnsigned?, hd]
      rfl
    have hunit := (Decimal.roundsTo_toFloat d).mem_unit hle
    have hadmits : admits d.toFloat = true := by
      simp only [admits, hunit, decide_true, Bool.and_self]
    rw [hread]
    dsimp only
    rw [ofNumber, dif_pos hadmits]
    exact .ok h rfl
  · rename_i h
    exact .error h

/-! ### Literals -/

/-- A text in the pattern of literals denotes a number. -/
theorem isSome_denoted? {s : List Char} (h : IdentifierKind.isConstant s = true) :
    (denoted? s).isSome = true := by
  unfold IdentifierKind.isConstant at h
  unfold denoted?
  rw [Option.isSome_map]
  split at h
  · exact h
  · rename_i hminus
    unfold splitSign
    split
    · exact (hminus _ rfl).elim
    · -- no literal begins with a plus sign
      rw [readDecimal?_eq_none_of_head (by decide) (by decide)] at h
      cases h
    · exact h

/-- The size of the number that a text denotes is too large for a finite float. -/
def ConstLiteral.Overflows (text : String) : Prop :=
  ∃ q, denoted? text.toList = some q ∧ overflowBound ≤ |q|

/-- A text in the pattern of literals is a literal, unless its number overflows. -/
theorem ConstLiteral.decided_parse (text : String) :
    DecidedBy (IdentifierKind.constLiteral.admits text = true ∧ ¬ Overflows text)
      (fun c : ConstLiteral => c.text = text ∧ read? text = some c.value) ⟨.constLiteral, text⟩
      (ConstLiteral.parse text) := by
  unfold ConstLiteral.parse
  split
  · rename_i h
    -- a text in the pattern denotes a number, which has a finite float unless it overflows
    obtain ⟨q, hq⟩ := Option.isSome_iff_exists.1 (isSome_denoted? h)
    have hfinite : (∃ x, read? text = some x ∧ x.isFinite = true) ↔ ¬ Overflows text := by
      unfold read? Overflows
      rw [exists_readChars?_isFinite_iff, hq]
      simp only [Option.some.injEq, exists_eq_left', not_le]
    split
    · rename_i x hx
      split
      · rename_i hfin
        exact .ok ⟨h, hfinite.1 ⟨x, hx, hfin⟩⟩ ⟨rfl, hx⟩
      · rename_i hfin
        refine .error fun hno => hfin ?_
        obtain ⟨y, hy, hfin⟩ := hfinite.2 hno.2
        rw [hx] at hy
        cases hy
        exact hfin
    · rename_i hnone
      refine .error fun hno => ?_
      obtain ⟨y, hy, _⟩ := hfinite.2 hno.2
      rw [hnone] at hy
      cases hy
  · rename_i h
    exact .error fun hno => h hno.1

/-! ### Main result -/

/-- The kind of a value. -/
def TypedValue.kind : TypedValue → IdentifierKind
  | .marketLocation _ => .marketLocationId
  | .meterLocation _ => .meterLocationId
  | .networkLocation _ => .networkLocationId
  | .transaction _ => .transactionId
  | .percent _ => .percentValue
  | .constant _ => .constLiteral
  | .variable _ => .formulaVariable

/-- The value keeps a text: as it is, except for the letter case of a transaction; a share is kept
as the number that is read. -/
def TypedValue.Keeps (text : String) : TypedValue → Prop
  | .marketLocation id => id.text = text
  | .meterLocation id => id.text = text
  | .networkLocation id => id.text = text
  | .transaction id => id.text = Text.lower text
  | .percent p => read? text = some p.value
  | .constant c => c.text = text ∧ read? text = some c.value
  | .variable v => v.text = text

theorem TypedValue.decided_parse (kind : IdentifierKind) (text : String) :
    DecidedBy (kind.admits text = true ∧ ¬ (kind = .constLiteral ∧ ConstLiteral.Overflows text))
      (fun v : TypedValue => v.kind = kind ∧ v.Keeps text) ⟨kind, text⟩ (parse kind text) := by
  cases kind with
  | marketLocationId =>
    exact (Identifier.decided_parse _ text).map (by simp) fun _ h => ⟨rfl, h⟩
  | meterLocationId => exact (Identifier.decided_parse _ text).map (by simp) fun _ h => ⟨rfl, h⟩
  | networkLocationId => exact (Identifier.decided_parse _ text).map (by simp) fun _ h => ⟨rfl, h⟩
  | transactionId => exact (TransactionId.decided_parse text).map (by simp) fun _ h => ⟨rfl, h⟩
  | percentValue => exact (Percent.decided_parse text).map (by simp) fun _ h => ⟨rfl, h⟩
  | constLiteral => exact (ConstLiteral.decided_parse text).map (by simp) fun _ h => ⟨rfl, h⟩
  | formulaVariable => exact (Identifier.decided_parse _ text).map (by simp) fun _ h => ⟨rfl, h⟩

/-- A kind admits the texts that its published pattern matches.  Such a text is read, unless it is a
literal that overflows, and no other one is; what is read keeps the text, and a refusal names the
kind and the text. -/
theorem TypedValue.parse_agrees (kind : IdentifierKind) (text : String) :
    (kind.published.text = kind.pattern ∧
        (kind.admits text = true ↔ kind.published.Matches text.toList)) ∧
      ((∃ v, TypedValue.parse kind text = .ok v) ↔
        kind.admits text = true ∧ ¬ (kind = .constLiteral ∧ ConstLiteral.Overflows text)) ∧
      (∀ v, TypedValue.parse kind text = .ok v → v.kind = kind ∧ v.Keeps text) ∧
      ∀ e, TypedValue.parse kind text = .error e → e = ⟨kind, text⟩ ∧
        (¬ kind.published.Matches text.toList ∨
          kind = .constLiteral ∧ ConstLiteral.Overflows text) := by
  have hreads := TypedValue.decided_parse kind text
  refine ⟨⟨kind.text_published, kind.admits_iff_matches text⟩, hreads.exists_ok_iff,
    fun v hv => hreads.of_ok hv, fun e he => ?_⟩
  obtain ⟨rfl, hrefused⟩ := hreads.of_error he
  rw [not_and_or, not_not, kind.admits_iff_matches] at hrefused
  exact ⟨rfl, hrefused⟩

/-- A literal that is in the pattern and is refused: no finite float is as large as its number. -/
theorem TypedValue.parse_beyondFinite :
    IdentifierKind.constLiteral.admits "1e400" = true ∧
      ¬ ∃ v, TypedValue.parse .constLiteral "1e400" = .ok v := by
  have hrefused : (TypedValue.parse .constLiteral "1e400").toOption.isSome = false := by
    decide +kernel
  refine ⟨by decide +kernel, ?_⟩
  rintro ⟨v, hv⟩
  rw [hv] at hrefused
  cases hrefused

end EnergyFormula
