/-!
# Sorted rows without repetition

`distinct` sorts a list by an order and keeps one of several equal neighbours;
`mem_distinct` says that it has the same members as the list.
-/

namespace EnergyFormula

/-- The members of a list in ascending order, each of them once. -/
def distinct {α : Type} [BEq α] (le : α → α → Bool) (xs : List α) : List α :=
  (xs.mergeSort le).eraseReps

/-- Dropping repetitions drops no member. -/
theorem mem_eraseReps {α : Type} [BEq α] [LawfulBEq α] {x : α} :
    ∀ {xs : List α}, x ∈ xs.eraseReps ↔ x ∈ xs := by
  have loop : ∀ (xs : List α) (a : α) (done : List α),
      x ∈ List.eraseRepsBy.loop (· == ·) a xs done ↔ x ∈ done ∨ x = a ∨ x ∈ xs := by
    intro xs
    induction xs with
    | nil => intro a done; simp [List.eraseRepsBy.loop]
    | cons b xs ih =>
      intro a done
      simp only [List.eraseRepsBy.loop]
      split
      · rename_i h
        rw [ih]
        have := eq_of_beq h
        grind
      · rw [ih]; grind
  intro xs
  cases xs with
  | nil => simp [List.eraseReps, List.eraseRepsBy]
  | cons a xs => simp [List.eraseReps, List.eraseRepsBy, loop]

/-- The row has the members of the list. -/
theorem mem_distinct {α : Type} [BEq α] [LawfulBEq α] {le : α → α → Bool} {x : α}
    {xs : List α} : x ∈ distinct le xs ↔ x ∈ xs := by
  rw [distinct, mem_eraseReps, List.mem_mergeSort]

end EnergyFormula
