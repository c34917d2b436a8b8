/-!
# Outcomes of steps

How the outcome of a computation in `Except` follows from the outcomes of its steps: when it
succeeds (`bind_eq_ok`), when it fails (`bind_eq_error`), and what all of its failures have in common
(`FailsOnly`).  Where success is a matter of one condition, both outcomes are said at once
(`DecidedBy`).
-/

namespace EnergyFormula

variable {ε α β : Type}

/-- Two steps succeed if the first one does, and the second one with its value. -/
theorem bind_eq_ok {x : Except ε α} {f : α → Except ε β} {b : β} :
    (x >>= f) = .ok b ↔ ∃ a, x = .ok a ∧ f a = .ok b := by
  cases x with
  | error e => simp [bind, Except.bind]
  | ok a => simp [bind, Except.bind]

/-- Two steps fail if the first one does, or the second one with its value. -/
theorem bind_eq_error {x : Except ε α} {f : α → Except ε β} {e : ε} :
    (x >>= f) = .error e ↔ x = .error e ∨ ∃ a, x = .ok a ∧ f a = .error e := by
  cases x with
  | error e' => simp [bind, Except.bind]
  | ok a => simp [bind, Except.bind]

theorem toOption_eq_some_iff {x : Except ε α} {a : α} : x.toOption = some a ↔ x = .ok a := by
  cases x with
  | error e => exact iff_of_false nofun nofun
  | ok b => simp [Except.toOption]

theorem exists_ok_of_isSome {x : Except ε α} (h : x.toOption.isSome = true) : ∃ a, x = .ok a := by
  obtain ⟨a, ha⟩ := Option.isSome_iff_exists.1 h
  exact ⟨a, toOption_eq_some_iff.1 ha⟩

theorem map_eq_ok_iff {x : Except ε α} {f : α → β} {b : β} :
    x.map f = .ok b ↔ ∃ a, x = .ok a ∧ f a = b := by
  cases x with
  | error e => exact iff_of_false nofun nofun
  | ok a =>
    show (Except.ok (f a) : Except ε β) = .ok b ↔ _
    simp

theorem mapError_eq_ok_iff {ε' : Type} {x : Except ε α} {f : ε → ε'} {a : α} :
    x.mapError f = .ok a ↔ x = .ok a := by
  cases x with
  | error e => exact iff_of_false nofun nofun
  | ok b =>
    show (Except.ok b : Except ε' α) = .ok a ↔ _
    simp

@[simp] theorem ok_bind (a : α) (f : α → Except ε β) : (Except.ok a >>= f) = f a := rfl

@[simp] theorem pure_eq_ok (a : α) : (pure a : Except ε α) = .ok a := rfl

/-! ### Failures -/

/-- Every failure of the outcome has the property. -/
def FailsOnly (P : ε → Prop) (x : Except ε α) : Prop :=
  ∀ e, x = .error e → P e

namespace FailsOnly

variable {P Q : ε → Prop} {x : Except ε α} {f : α → Except ε β}

theorem ok (a : α) : FailsOnly P (.ok a : Except ε α) :=
  nofun

theorem error {e : ε} (h : P e) : FailsOnly P (.error e : Except ε α) := by
  rintro _ ⟨⟩
  exact h

theorem imp (h : FailsOnly P x) (himp : ∀ e, P e → Q e) : FailsOnly Q x :=
  fun e he => himp e (h e he)

/-- Two steps fail as the first one does, or as the second one does with its value. -/
theorem bind (hx : FailsOnly P x) (hf : ∀ a, x = .ok a → FailsOnly P (f a)) :
    FailsOnly P (x >>= f) := by
  intro e he
  rcases bind_eq_error.1 he with he | ⟨a, ha, he⟩
  · exact hx e he
  · exact hf a ha e he

end FailsOnly

/-! ### Conditions -/

/-- The outcome is decided by a condition: a value with the property where it holds, and the given
error where it does not. -/
inductive DecidedBy (condition : Prop) (property : α → Prop) (e : ε) : Except ε α → Prop where
  | ok {a : α} : condition → property a → DecidedBy condition property e (.ok a)
  | error : ¬ condition → DecidedBy condition property e (.error e)

namespace DecidedBy

variable {condition : Prop} {property : α → Prop} {e : ε} {x : Except ε α}

theorem map (h : DecidedBy condition property e x) {condition' : Prop} {property' : β → Prop}
    {f : α → β} (hiff : condition ↔ condition') (hproperty : ∀ a, property a → property' (f a)) :
    DecidedBy condition' property' e (x.map f) := by
  cases h with
  | ok hc hp => exact .ok (hiff.1 hc) (hproperty _ hp)
  | error hc => exact .error (mt hiff.2 hc)

theorem exists_ok_iff (h : DecidedBy condition property e x) :
    (∃ a, x = .ok a) ↔ condition := by
  cases h with
  | ok hc _ => exact iff_of_true ⟨_, rfl⟩ hc
  | error hc => exact iff_of_false nofun hc

theorem of_ok (h : DecidedBy condition property e x) {a : α} (hx : x = .ok a) : property a := by
  cases h with
  | ok _ hp => cases hx; exact hp
  | error _ => cases hx

theorem of_error (h : DecidedBy condition property e x) {e' : ε} (hx : x = .error e') :
    e' = e ∧ ¬ condition := by
  cases h with
  | ok _ _ => cases hx
  | error hc => cases hx; exact ⟨rfl, hc⟩

end DecidedBy

end EnergyFormula
