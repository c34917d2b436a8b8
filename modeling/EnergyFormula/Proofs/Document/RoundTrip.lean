import EnergyFormula.Document.Calculation
import EnergyFormula.Proofs.Document.Expression
import EnergyFormula.Proofs.Document.Formula

/-!
# Documents survive

A document may be given in many forms: with the other keys of its fields, with numbers as text,
without what has a default, with fields that nobody asked for, or as a row of values.  Whichever form
it was read from, it is written in one that is read as the same document, and so is written the same
again (`documents_survive`).  This is about JSON values; their texts are the matter of `Json.read?`.
-/

namespace EnergyFormula

open Document

/-! ### Calculation requests -/

theorem Inputs.readsBack (v : Json) : ReadsBack Inputs.read Inputs.write v :=
  dictionary_readsBack TimeSeries.readsBack v

theorem CalculationRequest.readsBack (v : Json) :
    ReadsBack CalculationRequest.read CalculationRequest.write v := by
  intro r h
  obtain ⟨_, output, rfl, h, houtput⟩ := (Record.canGive_of_read h).of_seq
  obtain ⟨_, period, rfl, h, hperiod⟩ := h.of_seq
  obtain ⟨_, inputs, rfl, h, hinputs⟩ := h.of_seq
  obtain ⟨_, sliceId, rfl, h, hsliceId⟩ := h.of_seq
  obtain ⟨_, location, rfl, h, hlocation⟩ := h.of_seq
  obtain ⟨id, rfl, _⟩ := h.of_map
  refine Record.Gives.read (.seq (.seq (.seq (.seq (.seq (.map _ ?_) ?_) ?_) ?_) ?_) ?_)
  · exact Record.gives_required (valuesAt_written (some (.string id)) (by simp)) rfl
  · exact hlocation.again_required (fun part => LocationDocument.readsBack part.1)
      (valuesAt_written (some location.write) (by simp))
  · exact hsliceId.again_optional (fun part => integer_readsBack part.1) (fun _ _ _ _ => nofun)
      (valuesAt_written _ (by simp))
  · exact hinputs.again_defaulted rfl (fun part => Inputs.readsBack part.1)
      (valuesAt_written (some (Inputs.write inputs)) (by simp))
  · exact hperiod.again_required (fun part => Period.readsBack part.1)
      (valuesAt_written (some period.write) (by simp))
  · exact houtput.again_required (fun part => OutputSpec.readsBack part.1)
      (valuesAt_written (some output.write) (by simp))

/-! ### Main result -/

/-- The document that the value holds, if it holds one, is written so that it is read as the same
document and written the same again. -/
def Document.Survives {α : Type} (read : Json → Decoded α) (write : α → Json) (v : Json) : Prop :=
  ∀ a, read v = .ok a → read (write a) = .ok a ∧ ∀ b, read (write a) = .ok b → write b = write a

theorem Document.ReadsBack.survives {α : Type} {read : Json → Decoded α} {write : α → Json}
    {v : Json} (h : ReadsBack read write v) : Survives read write v := by
  intro a ha
  have hagain := h a ha
  refine ⟨hagain, fun b hb => ?_⟩
  rw [hagain] at hb
  cases hb
  rfl

/-- Series, expressions, locations and calculation requests survive being written and read,
whatever value they were read from. -/
theorem documents_survive (v : Json) :
    Survives TimeSeries.read TimeSeries.write v ∧
      Survives (Expression.read false) Expression.write v ∧
        Survives LocationDocument.read LocationDocument.write v ∧
          Survives CalculationRequest.read CalculationRequest.write v :=
  ⟨(TimeSeries.readsBack v).survives, (Expression.readsBack false v).survives,
    (LocationDocument.readsBack v).survives, (CalculationRequest.readsBack v).survives⟩

/-! ### Documents in other forms -/

namespace Document

/-- A series with instants in the relaxed notation, a period and an interval that are rows of values,
a quantity in blanks and a quality under its other name. -/
def looseSeries : Json :=
  .object [("unit", .string "KWH"), ("comment", .null), ("timeSeriesId", .string "S"),
    ("resolution", .string "PT60M"),
    ("period", .array [.string "2024-6-1 0:0:0 UTC", .string "2024-06-01T02:00:00+01:00"]),
    ("intervals", .array [.array [.integer 1, .string "2024-6-1 0:0:0 UTC",
      .string "2024-06-01T02:00:00+01:00", .string " 1.5 ", .string "Gültige Daten"]])]

/-- An expression with a descriptive function name, a reference without a factor and, inside of
another expression, a kind that is given by its number. -/
def looseExpression : Json :=
  .object [("function", .string "GroupedSum"), ("parameters", .array
    [.object [("name", .string "x"), ("type", .string "timeseries_ref")],
      .array [.string "expression", .object [("function", .string "Round"), ("parameters", .array
        [.object [("type", .integer 0), ("value", .string " 2.5 ")]])]]])]

/-- A location whose operands stand under other keys, with a constant that is an object. -/
def looseLocation : Json :=
  .object [("neloId", .string "E1234567890"), ("calculationFormulaTimeSlices", .array
    [.object [("timeSliceId", .integer 1), ("calculationFormula", .object [("add", .array
      [.object [("constant", .object [("b", .null), ("a", .integer 1)])],
        .object [("nestedFormula", .object [("pos", .object [("variable", .string "y")])])]])])]])]

/-- A request without inputs that names its output in full. -/
def looseRequest : Json :=
  .object [("calculationId", .string "C"), ("formulaLocation", looseLocation),
    ("period", .array [.string "2024-6-1 0:0:0 UTC", .string "2024-06-01T02:00:00+01:00"]),
    ("output", .object [("outputUnit", .string "KWH"), ("outputResolution", .string "PT60M")])]

end Document

theorem documents_survive_loose :
    (∃ s, TimeSeries.read looseSeries = .ok s ∧ TimeSeries.read s.write = .ok s) ∧
      (∃ e, Expression.read false looseExpression = .ok e ∧
        Expression.read false e.write = .ok e) ∧
        (∃ d, LocationDocument.read looseLocation = .ok d ∧
          LocationDocument.read d.write = .ok d) ∧
          ∃ r, CalculationRequest.read looseRequest = .ok r ∧
            CalculationRequest.read r.write = .ok r := by
  obtain ⟨s, hs⟩ : ∃ s, TimeSeries.read looseSeries = .ok s :=
    exists_ok_of_isSome (by decide +kernel)
  obtain ⟨e, he⟩ : ∃ e, Expression.read false looseExpression = .ok e :=
    exists_ok_of_isSome (by decide +kernel)
  obtain ⟨d, hd⟩ : ∃ d, LocationDocument.read looseLocation = .ok d :=
    exists_ok_of_isSome (by decide +kernel)
  obtain ⟨r, hr⟩ : ∃ r, CalculationRequest.read looseRequest = .ok r :=
    exists_ok_of_isSome (by decide +kernel)
  exact ⟨⟨s, hs, ((documents_survive looseSeries).1 s hs).1⟩,
    ⟨e, he, ((documents_survive looseExpression).2.1 e he).1⟩,
    ⟨d, hd, ((documents_survive looseLocation).2.2.1 d hd).1⟩,
    ⟨r, hr, ((documents_survive looseRequest).2.2.2 r hr).1⟩⟩

end EnergyFormula
