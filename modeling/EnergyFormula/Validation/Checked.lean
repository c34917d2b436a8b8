import EnergyFormula.Validation.Finding

/-!
# Checked values

A check does not stop at the first defect.  What it comes to is `Checked`: a value, or at least one
finding.  Checks are put together with the operations of an applicative functor, which collect the
findings of all parts in order (`Checked.findings_seq`), so a value comes out exactly if there is no
finding (`Checked.findings_eq_nil_iff`).
-/

namespace EnergyFormula

/-- A value, or the findings that stand against it. -/
inductive Checked (α : Type) where
  | valid (value : α)
  | invalid (first : Finding) (others : List Finding)

namespace Checked

variable {α β : Type}

/-- The value, if there is one. -/
def value? : Checked α → Option α
  | valid a => some a
  | invalid _ _ => none

/-- The findings. -/
def findings : Checked α → List Finding
  | valid _ => []
  | invalid first others => first :: others

/-- The checks of a function and of its argument. -/
def apply : Checked (α → β) → Checked α → Checked β
  | valid f, valid a => valid (f a)
  | valid _, invalid first others => invalid first others
  | invalid first others, x => invalid first (others ++ x.findings)

instance : Applicative Checked where
  pure := valid
  seq f x := apply f (x ())

/-- A check that fails with a single finding. -/
def fail (finding : Finding) : Checked α :=
  invalid finding []

/-- Findings with one more at their end. -/
def failAfter : List Finding → Finding → Checked α
  | [], last => invalid last []
  | first :: rest, last => invalid first (rest ++ [last])

/-- The same check, seen from an enclosing document. -/
def within (steps : Path) : Checked α → Checked α
  | valid a => valid a
  | invalid first others => invalid (first.within steps) (others.map (Finding.within steps))

/-- A further check of the value, if there is one. -/
def andThen (x : Checked α) (check : α → Checked β) : Checked β :=
  match x with
  | valid a => check a
  | invalid first others => invalid first others

/-- A result as a check. -/
def ofExcept {ε : Type} (defect : ε → Defect) : Except ε α → Checked α
  | .ok a => valid a
  | .error e => fail (.here (defect e))

/-- The only one of several alternatives.  If there is not exactly one, the findings of all of them
are followed by `ambiguous`. -/
def only (alternatives : List (Checked α)) (ambiguous : Finding) : Checked α :=
  match alternatives with
  | [x] => x
  | xs => failAfter (xs.flatMap findings) ambiguous

theorem findings_eq_nil_iff {x : Checked α} : x.findings = [] ↔ ∃ a, x = valid a := by
  cases x <;> simp [findings]

theorem findings_seq (f : Checked (α → β)) (x : Checked α) :
    (f <*> x).findings = f.findings ++ x.findings := by
  cases f <;> cases x <;> simp [Seq.seq, apply, findings]

theorem findings_map (f : α → β) (x : Checked α) : (f <$> x).findings = x.findings := by
  cases x <;> simp [Functor.map, apply, findings]

theorem findings_failAfter (before : List Finding) (last : Finding) :
    (failAfter before last : Checked α).findings = before ++ [last] := by
  cases before <;> simp [failAfter, findings]

theorem findings_within (steps : Path) (x : Checked α) :
    (x.within steps).findings = x.findings.map (Finding.within steps) := by
  cases x <;> simp [within, findings]

end Checked

end EnergyFormula
