import EnergyFormula.Time.Period

/-!
# Overlapping periods

`overlappingPairs` names the pairs of periods that have an instant in common, by a sweep over the
periods in the order of their starts: a period overlaps exactly those after it that start before it
ends.  Periods that hold no instant are left out; `fst_mem_of_mem_sweep` and `snd_mem_of_mem_sweep`
say that only the swept periods are named.
-/

namespace EnergyFormula

/-- A period together with its place in a list. -/
structure PlacedPeriod where
  place : Nat
  period : Period

/-- The pairs of a sweep over periods in the order of their starts. -/
def sweep : List PlacedPeriod → List (Nat × Nat)
  | [] => []
  | a :: rest =>
    (rest.takeWhile fun b => b.period.start < a.period.stop).map (fun b => (a.place, b.place)) ++
      sweep rest

/-- The non-empty periods of a list in the order of their starts; equal starts keep their
order. -/
def byStart (periods : List Period) : List PlacedPeriod :=
  let placed := periods.mapIdx fun i p => PlacedPeriod.mk i p
  (placed.filter fun a => a.period.start < a.period.stop).mergeSort
    fun a b => a.period.start ≤ b.period.start

/-- The places of the pairs of periods that overlap, the one that starts first in front. -/
def overlappingPairs (periods : List Period) : List (Nat × Nat) :=
  sweep (byStart periods)

/-- The first of a pair is one of the swept periods. -/
theorem fst_mem_of_mem_sweep {i j : Nat} :
    ∀ {row : List PlacedPeriod}, (i, j) ∈ sweep row → ∃ a ∈ row, a.place = i
  | [], h => by simp [sweep] at h
  | a :: rest, h => by
    simp only [sweep, List.mem_append, List.mem_map, Prod.mk.injEq] at h
    rcases h with ⟨_, _, rfl, _⟩ | h
    · exact ⟨a, by simp, rfl⟩
    · obtain ⟨b, hb, rfl⟩ := fst_mem_of_mem_sweep h
      exact ⟨b, by simp [hb], rfl⟩

/-- The second of a pair is one of the swept periods. -/
theorem snd_mem_of_mem_sweep {i j : Nat} :
    ∀ {row : List PlacedPeriod}, (i, j) ∈ sweep row → ∃ b ∈ row, b.place = j
  | [], h => by simp [sweep] at h
  | a :: rest, h => by
    simp only [sweep, List.mem_append, List.mem_map, Prod.mk.injEq] at h
    rcases h with ⟨b, hb, _, rfl⟩ | h
    · exact ⟨b, List.mem_cons_of_mem _ ((List.takeWhile_sublist _).subset hb), rfl⟩
    · obtain ⟨b, hb, rfl⟩ := snd_mem_of_mem_sweep h
      exact ⟨b, by simp [hb], rfl⟩

end EnergyFormula
