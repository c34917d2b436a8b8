import EnergyFormula.Proofs.Outcome
import Mathlib.Data.List.Forall2

/-!
# Rows

Two lists whose members are related one by one, and steps on every member of a list: they succeed
exactly if the results are related to the members (`mapM_eq_ok_iff`).
-/

namespace EnergyFormula

/-! ### Related rows -/

section Related

variable {α β : Type} {R : α → β → Prop}

theorem exists_forall₂ : ∀ {xs : List α}, (∀ x ∈ xs, ∃ y, R x y) → ∃ ys, List.Forall₂ R xs ys
  | [], _ => ⟨[], .nil⟩
  | x :: xs, h => by
    obtain ⟨hx, hxs⟩ := List.forall_mem_cons.1 h
    obtain ⟨y, hy⟩ := hx
    obtain ⟨ys, hys⟩ := exists_forall₂ hxs
    exact ⟨y :: ys, .cons hy hys⟩

theorem exists_left_of_forall₂ {xs : List α} {ys : List β} (h : List.Forall₂ R xs ys) :
    ∀ y ∈ ys, ∃ x ∈ xs, R x y := by
  induction h with
  | nil => exact List.forall_mem_nil _
  | @cons x y xs ys hxy _ ih =>
    refine List.forall_mem_cons.2 ⟨⟨x, List.mem_cons_self, hxy⟩, fun z hz => ?_⟩
    obtain ⟨a, ha, haz⟩ := ih z hz
    exact ⟨a, List.mem_cons_of_mem x ha, haz⟩

theorem forall_mem_of_forall₂ {P : β → Prop} (hP : ∀ x y, R x y → P y) {xs : List α}
    {ys : List β} (h : List.Forall₂ R xs ys) : ∀ y ∈ ys, P y := by
  intro y hy
  obtain ⟨x, _, hxy⟩ := exists_left_of_forall₂ h y hy
  exact hP x y hxy

theorem exists_right_of_forall₂ {xs : List α} {ys : List β} (h : List.Forall₂ R xs ys) :
    ∀ x ∈ xs, ∃ y ∈ ys, R x y :=
  exists_left_of_forall₂ h.flip

end Related

/-! ### Steps on every member -/

/-- A step on every member of a list succeeds if it does on each of them. -/
theorem mapM_eq_ok_iff {ε α β : Type} {f : α → Except ε β} {xs : List α} {ys : List β} :
    xs.mapM f = .ok ys ↔ List.Forall₂ (fun x y => f x = .ok y) xs ys := by
  induction xs generalizing ys with
  | nil =>
    rw [List.mapM_nil, pure_eq_ok, List.forall₂_nil_left_iff, Except.ok.injEq, eq_comm]
  | cons x xs ih =>
    rw [List.mapM_cons, bind_eq_ok, List.forall₂_cons_left_iff]
    constructor
    · rintro ⟨y, hy, h⟩
      obtain ⟨rest, hrest, h⟩ := bind_eq_ok.1 h
      cases h
      exact ⟨y, rest, hy, ih.1 hrest, rfl⟩
    · rintro ⟨y, rest, hy, hrest, rfl⟩
      exact ⟨y, hy, bind_eq_ok.2 ⟨rest, ih.2 hrest, rfl⟩⟩

/-- A step on every member of a list fails at the first member on which it does. -/
theorem mapM_eq_error_iff {ε α β : Type} {f : α → Except ε β} {xs : List α} {e : ε} :
    xs.mapM f = .error e ↔ ∃ before x after, xs = before ++ x :: after ∧
      (∀ b ∈ before, ∃ y, f b = .ok y) ∧ f x = .error e := by
  induction xs with
  | nil => simp
  | cons x xs ih =>
    rw [List.mapM_cons, bind_eq_error]
    constructor
    · rintro (hx | ⟨y, hy, h⟩)
      · exact ⟨[], x, xs, rfl, List.forall_mem_nil _, hx⟩
      · rcases bind_eq_error.1 h with hrest | ⟨_, _, h⟩
        · obtain ⟨before, z, after, rfl, hbefore, hz⟩ := ih.1 hrest
          exact ⟨x :: before, z, after, rfl, List.forall_mem_cons.2 ⟨⟨y, hy⟩, hbefore⟩, hz⟩
        · cases h
    · rintro ⟨before, z, after, hxs, hbefore, hz⟩
      cases before with
      | nil =>
        cases hxs
        exact .inl hz
      | cons b before =>
        cases hxs
        obtain ⟨⟨y, hy⟩, hbefore⟩ := List.forall_mem_cons.1 hbefore
        exact .inr ⟨y, hy, bind_eq_error.2 (.inl (ih.2 ⟨before, z, after, rfl, hbefore, hz⟩))⟩

/-- A step on every member of a list fails only as it does on one of them. -/
theorem FailsOnly.mapM {ε α β : Type} {P : ε → Prop} {f : α → Except ε β} {xs : List α}
    (h : ∀ x ∈ xs, FailsOnly P (f x)) : FailsOnly P (xs.mapM f) := by
  intro e he
  obtain ⟨before, x, after, rfl, _, hx⟩ := mapM_eq_error_iff.1 he
  exact h x (List.mem_append_right before List.mem_cons_self) e hx

/-- Several values are all present if each of them is. -/
theorem mapM_id_eq_some_iff {α : Type} {xs : List (Option α)} {ys : List α} :
    xs.mapM id = some ys ↔ xs = ys.map some := by
  induction xs generalizing ys with
  | nil => cases ys <;> simp
  | cons x xs ih =>
    cases x with
    | none => cases ys <;> simp
    | some x =>
      rw [List.mapM_cons]
      show ((xs.mapM id).bind fun rest => some (x :: rest)) = some ys ↔ _
      constructor
      · intro h
        obtain ⟨rest, hrest, h⟩ := Option.bind_eq_some_iff.1 h
        cases h
        rw [ih.1 hrest, List.map_cons]
      · intro h
        cases ys with
        | nil => cases h
        | cons y ys =>
          obtain ⟨hx, hxs⟩ := List.cons.inj h
          cases hx
          exact Option.bind_eq_some_iff.2 ⟨ys, ih.2 hxs, rfl⟩

end EnergyFormula
