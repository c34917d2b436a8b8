import EnergyFormula.Proofs.Text.Digits
import EnergyFormula.Validation.Finding

/-!
# Places and their texts

A path behind a first field is written as the steps one after another, a field with a point in
front and an index in brackets (`Path.toList_text`).  Where no name holds one of these signs, the
steps can be told from the text (`Path.text_inj`).
-/

namespace EnergyFormula

namespace PathStep

/-- The step as it is written behind another one. -/
def chars : PathStep → List Char
  | field name => '.' :: name.toList
  | item index => '[' :: (Text.natural index ++ [']'])

/-- A step begins with the character. -/
def Opens (c : Char) : Prop :=
  c = '.' ∨ c = '['

/-- The step is not taken for several ones: a name in it holds no character that a step begins
with. -/
def IsPlain : PathStep → Prop
  | field name => ∀ c ∈ name.toList, ¬ Opens c
  | item _ => True

end PathStep

namespace Path

variable {p q : Path}

theorem toList_textAfter {before : String} (h : before ≠ "") :
    (textAfter before p).toList = before.toList ++ p.flatMap PathStep.chars := by
  induction p generalizing before with
  | nil => exact (List.append_nil _).symm
  | cons step rest ih =>
    have hne : ∀ s : String, before ++ s ≠ "" := by
      intro s hs
      exact h (String.append_eq_empty_iff.1 hs).1
    cases step with
    | field name =>
      have hempty : before.isEmpty = false := by simpa using h
      rw [textAfter, hempty, if_neg Bool.false_ne_true, String.append_assoc, ih (hne _)]
      simp [PathStep.chars]
    | item index =>
      rw [textAfter, String.append_assoc, String.append_assoc, ih (hne _)]
      simp [PathStep.chars, Text.natural]

/-- Behind a first field the steps are written one after another. -/
theorem toList_text {name : String} (h : name ≠ "") :
    (text (.field name :: p)).toList = name.toList ++ p.flatMap PathStep.chars :=
  toList_textAfter h

/-! ### Telling the steps apart -/

/-- Where two texts are equal up to their first delimiters, the parts behind are equal too. -/
theorem append_inj_of_delimited {delimits : Char → Prop} :
    ∀ {a b r s : List Char}, (∀ c ∈ a, ¬ delimits c) → (∀ c ∈ b, ¬ delimits c) →
      (∀ c ∈ r.head?, delimits c) → (∀ c ∈ s.head?, delimits c) → a ++ r = b ++ s →
        a = b ∧ r = s
  | [], [], _, _, _, _, _, _, h => ⟨rfl, h⟩
  | [], c :: b, r, s, _, hb, hr, _, h => by
    have hc : c ∈ r.head? := by
      rw [List.nil_append] at h
      rw [h]
      rfl
    exact absurd (hr c hc) (hb c List.mem_cons_self)
  | c :: a, [], r, s, ha, _, _, hs, h => by
    have hc : c ∈ s.head? := by
      rw [List.nil_append] at h
      rw [← h]
      rfl
    exact absurd (hs c hc) (ha c List.mem_cons_self)
  | c :: a, d :: b, r, s, ha, hb, hr, hs, h => by
    obtain ⟨rfl, htail⟩ := List.cons.inj h
    obtain ⟨_, ha⟩ := List.forall_mem_cons.1 ha
    obtain ⟨_, hb⟩ := List.forall_mem_cons.1 hb
    obtain ⟨rfl, hrest⟩ := append_inj_of_delimited ha hb hr hs htail
    exact ⟨rfl, hrest⟩

theorem opens_of_mem_head? {c : Char} (h : c ∈ (p.flatMap PathStep.chars).head?) :
    PathStep.Opens c := by
  cases p with
  | nil => cases h
  | cons step rest =>
    cases step with
    | field name =>
      cases h
      exact .inl rfl
    | item index =>
      cases h
      exact .inr rfl

theorem natural_inj {m n : Nat} (h : Text.natural m = Text.natural n) : m = n := by
  rw [← Text.digitsValue_natural m, h, Text.digitsValue_natural]

theorem ne_bracket_of_mem_natural {n : Nat} {c : Char} (h : c ∈ Text.natural n) : ¬ c = ']' := by
  rintro rfl
  exact absurd (Text.isDigit_of_mem_natural h) (by decide)

/-- Plain steps can be told from their text. -/
theorem flatMap_chars_inj : ∀ {p q : Path}, (∀ s ∈ p, s.IsPlain) → (∀ s ∈ q, s.IsPlain) →
    p.flatMap PathStep.chars = q.flatMap PathStep.chars → p = q
  | [], [], _, _, _ => rfl
  | [], .field _ :: _, _, _, h => by cases h
  | [], .item _ :: _, _, _, h => by cases h
  | .field _ :: _, [], _, _, h => by cases h
  | .item _ :: _, [], _, _, h => by cases h
  | .field name :: p, .field other :: q, hp, hq, h => by
    obtain ⟨hname, hp⟩ := List.forall_mem_cons.1 hp
    obtain ⟨hother, hq⟩ := List.forall_mem_cons.1 hq
    have h : name.toList ++ p.flatMap PathStep.chars = other.toList ++ q.flatMap PathStep.chars :=
      (List.cons.inj h).2
    obtain ⟨hnames, hrest⟩ := append_inj_of_delimited hname hother
      (fun c => opens_of_mem_head?) (fun c => opens_of_mem_head?) h
    rw [String.toList_inj.1 hnames, flatMap_chars_inj hp hq hrest]
  | .item i :: p, .item j :: q, hp, hq, h => by
    obtain ⟨_, hp⟩ := List.forall_mem_cons.1 hp
    obtain ⟨_, hq⟩ := List.forall_mem_cons.1 hq
    have h : Text.natural i ++ [']'] ++ p.flatMap PathStep.chars =
      Text.natural j ++ [']'] ++ q.flatMap PathStep.chars := (List.cons.inj h).2
    rw [List.append_assoc, List.append_assoc] at h
    obtain ⟨hindices, hrest⟩ := append_inj_of_delimited (fun c => ne_bracket_of_mem_natural)
      (fun c => ne_bracket_of_mem_natural) (by simp) (by simp) h
    rw [natural_inj hindices, flatMap_chars_inj hp hq (List.cons.inj hrest).2]
  | .field _ :: _, .item _ :: _, _, _, h => by simp [PathStep.chars] at h
  | .item _ :: _, .field _ :: _, _, _, h => by simp [PathStep.chars] at h

/-- Behind the same first field, plain paths can be told from their texts. -/
theorem text_inj {name : String} (hname : name ≠ "") (hp : ∀ s ∈ p, s.IsPlain)
    (hq : ∀ s ∈ q, s.IsPlain) (h : text (.field name :: p) = text (.field name :: q)) : p = q := by
  have hchars := congrArg String.toList h
  rw [toList_text hname, toList_text hname] at hchars
  exact flatMap_chars_inj hp hq (List.append_cancel_left hchars)

end Path

end EnergyFormula
