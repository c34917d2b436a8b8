import EnergyFormula.Evaluation.Signal

/-!
# The workspace of an evaluation

Before an evaluation starts, every series that is referred to is brought onto the grid, so that a
missing or misaligned input fails before any operator is applied.  A `Workspace` holds the grid and
the aligned series; `series_eq_ok_of_mem` says that each of the prepared names is found in it.
-/

namespace EnergyFormula

/-- Input series by name; the first of several with one name counts. -/
abbrev Inputs := List (String × TimeSeries)

/-- A grid and the series on it, by name. -/
structure Workspace where
  grid : Grid
  aligned : List (String × Array Sample)

/-- The samples of the input with a name. -/
def alignNamed (grid : Grid) (inputs : Inputs) (name : String) : Except EvalError (Array Sample) :=
  match inputs.lookup name with
  | some series => align series grid
  | none => .error (.of (.unresolved name))

/-- The samples of the named inputs, in the order of the names; the first failure counts. -/
def alignAll (grid : Grid) (inputs : Inputs) :
    List String → Except EvalError (List (String × Array Sample))
  | [] => .ok []
  | name :: rest => do
    let samples ← alignNamed grid inputs name
    let others ← alignAll grid inputs rest
    return (name, samples) :: others

namespace Workspace

/-- The workspace with the named inputs. -/
def prepare (grid : Grid) (inputs : Inputs) (names : List String) : Except EvalError Workspace := do
  let aligned ← alignAll grid inputs names
  return ⟨grid, aligned⟩

/-- The series with a name. -/
def series (w : Workspace) (name : String) : Except EvalError Signal :=
  match w.aligned.lookup name with
  | some samples => .ok (.series samples)
  | none => .error (.of (.unresolved name))

end Workspace

/-- Every name that was aligned has the samples of its input. -/
theorem lookup_alignAll {grid : Grid} {inputs : Inputs} {name : String} :
    ∀ {names : List String} {aligned : List (String × Array Sample)},
      alignAll grid inputs names = .ok aligned → name ∈ names →
        ∃ samples, aligned.lookup name = some samples ∧
          alignNamed grid inputs name = .ok samples
  | [], _, _, hm => by cases hm
  | first :: rest, aligned, h, hm => by
    simp only [alignAll, bind, Except.bind] at h
    split at h
    · cases h
    · rename_i samples hs
      split at h
      · cases h
      · rename_i others ho
        cases h
        by_cases hn : name = first
        · subst hn
          exact ⟨samples, by simp, hs⟩
        · obtain ⟨found, hf, ha⟩ :=
            lookup_alignAll ho ((List.mem_cons.1 hm).resolve_left hn)
          have : (name == first) = false := by simpa using hn
          exact ⟨found, by rw [List.lookup_cons, this, hf], ha⟩

/-- A workspace has every series that it was prepared with. -/
theorem Workspace.series_eq_ok_of_mem {grid : Grid} {inputs : Inputs} {names : List String}
    {w : Workspace} (h : prepare grid inputs names = .ok w) {name : String} (hm : name ∈ names) :
    ∃ samples, w.series name = .ok (.series samples) ∧
      alignNamed grid inputs name = .ok samples := by
  simp only [prepare, bind, Except.bind] at h
  split at h
  · cases h
  · rename_i aligned ha
    cases h
    obtain ⟨samples, hl, hs⟩ := lookup_alignAll ha hm
    exact ⟨samples, by simp [series, hl], hs⟩

end EnergyFormula
