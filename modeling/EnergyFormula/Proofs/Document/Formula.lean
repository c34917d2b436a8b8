import EnergyFormula.Document.Location
import EnergyFormula.Proofs.Document.Given

/-!
# Formulas in documents

Whatever a formula document says, read under any of its keys, is written under the first of them and
read back (`FormulaDocument.readsBack`), and so are the slices and locations around it
(`LocationDocument.readsBack`).
-/

namespace EnergyFormula

open Document

/-! ### Metered quantities -/

theorem PercentDocument.readsBack (v : Json) :
    ReadsBack PercentDocument.read PercentDocument.write v := by
  intro d h
  obtain ⟨value, rfl, hvalue⟩ := (Record.canGive_of_read h).of_map
  refine Record.Gives.read (.map _ ?_)
  refine hvalue.again_optional (fun part => anything_readsBack part.1)
    (fun _ hne _ => anything_ne_null hne) ?_
  rw [Option.map_id_fun, id_eq]
  exact valuesAt_written _ (by simp)

theorem MeterDocument.readsBack (v : Json) :
    ReadsBack MeterDocument.read MeterDocument.write v := by
  intro d h
  obtain ⟨_, distribution, rfl, h, hdistribution⟩ := (Record.canGive_of_read h).of_seq
  obtain ⟨_, conduction, rfl, h, hconduction⟩ := h.of_seq
  obtain ⟨_, transformer, rfl, h, htransformer⟩ := h.of_seq
  obtain ⟨_, direction, rfl, h, _⟩ := h.of_seq
  obtain ⟨meter, rfl, _⟩ := h.of_map
  refine Record.Gives.read (.seq (.seq (.seq (.seq (.map _ ?_) ?_) ?_) ?_) ?_)
  · exact Record.gives_text (valuesAt_written _ (by simp))
  · exact Record.gives_text (valuesAt_written _ (by simp))
  · exact htransformer.again_optional (fun part => PercentDocument.readsBack part.1)
      (fun _ _ _ _ => object_ne_null _) (valuesAt_written _ (by simp))
  · exact hconduction.again_optional (fun part => PercentDocument.readsBack part.1)
      (fun _ _ _ _ => object_ne_null _) (valuesAt_written _ (by simp))
  · exact hdistribution.again_optional (fun part => PercentDocument.readsBack part.1)
      (fun _ _ _ _ => object_ne_null _) (valuesAt_written _ (by simp))

/-! ### Formulas and operands -/

theorem FormulaDocument.read_eq (v : Json) :
    FormulaDocument.read v =
      (FormulaDocument.mk <$> .optional ["add"] (list OperandDocument.read)
        <*> .optional ["sub"] DifferenceDocument.read
        <*> .optional ["mul"] (list OperandDocument.read)
        <*> .optional ["div"] (list OperandDocument.read)
        <*> .optional ["pos"] OperandDocument.read
        <*> .optional ["operand"] OperandDocument.read : Record v FormulaDocument).read := by
  rw [FormulaDocument.read]
  rfl

theorem DifferenceDocument.read_eq (v : Json) :
    DifferenceDocument.read v =
      (DifferenceDocument.mk <$> .optional ["minuend"] OperandDocument.read
        <*> .optional ["subtrahend"] OperandDocument.read : Record v DifferenceDocument).read := by
  rw [DifferenceDocument.read]
  rfl

theorem OperandDocument.read_eq (v : Json) :
    OperandDocument.read v =
      (OperandDocument.mk <$> .optional ["meloOperand", "meterOperand"] MeterDocument.read
        <*> .optional ["const", "constant"] anything
        <*> .optional ["formulaVar", "variable"] string
        <*> .optional ["calculationFormula", "nestedFormula"] FormulaDocument.read :
          Record v OperandDocument).read := by
  rw [OperandDocument.read]
  rfl

theorem OperandDocument.writeAll_eq (ds : List OperandDocument) :
    OperandDocument.writeAll ds = ds.map OperandDocument.write := by
  induction ds with
  | nil => rfl
  | cons d rest ih => rw [OperandDocument.writeAll, ih, List.map_cons]

theorem OperandDocument.writeRow?_eq (ds : Option (List OperandDocument)) :
    OperandDocument.writeRow? ds = ds.map (array OperandDocument.write) := by
  cases ds with
  | none => rfl
  | some ds => exact congrArg (some ∘ Json.array) (OperandDocument.writeAll_eq ds)

theorem OperandDocument.write?_eq (d : Option OperandDocument) :
    OperandDocument.write? d = d.map OperandDocument.write := by
  cases d <;> rfl

theorem DifferenceDocument.write?_eq (d : Option DifferenceDocument) :
    DifferenceDocument.write? d = d.map DifferenceDocument.write := by
  rcases d with _ | ⟨_, _⟩ <;> rfl

theorem FormulaDocument.write?_eq (d : Option FormulaDocument) :
    FormulaDocument.write? d = d.map FormulaDocument.write := by
  cases d <;> rfl

theorem FormulaDocument.write_ne_null (d : FormulaDocument) : d.write ≠ .null := by
  obtain ⟨_, _, _, _, _, _⟩ := d
  exact object_ne_null _

theorem OperandDocument.write_ne_null (d : OperandDocument) : d.write ≠ .null := by
  obtain ⟨_, _, _, _⟩ := d
  exact object_ne_null _

-- By recursion over the value that is read, as the readers go.
mutual

/-- A formula document that was read is read back. -/
theorem FormulaDocument.readsBack (v : Json) :
    ReadsBack FormulaDocument.read FormulaDocument.write v := by
  have hrows : ∀ part : Part v,
      ReadsBack (list OperandDocument.read) (array OperandDocument.write) part.1 :=
    fun row => list_readsBack fun item => OperandDocument.readsBack item.1
  intro d h
  rw [FormulaDocument.read_eq] at h
  obtain ⟨_, operand, rfl, h, hoperand⟩ := (Record.canGive_of_read h).of_seq
  obtain ⟨_, pos, rfl, h, hpos⟩ := h.of_seq
  obtain ⟨_, div, rfl, h, hdiv⟩ := h.of_seq
  obtain ⟨_, mul, rfl, h, hmul⟩ := h.of_seq
  obtain ⟨_, sub, rfl, h, hsub⟩ := h.of_seq
  obtain ⟨add, rfl, hadd⟩ := h.of_map
  rw [FormulaDocument.write, FormulaDocument.read_eq, OperandDocument.writeRow?_eq,
    DifferenceDocument.write?_eq, OperandDocument.writeRow?_eq, OperandDocument.writeRow?_eq,
    OperandDocument.write?_eq, OperandDocument.write?_eq]
  refine Record.Gives.read (.seq (.seq (.seq (.seq (.seq (.map _ ?_) ?_) ?_) ?_) ?_) ?_)
  · exact hadd.again_optional hrows (fun _ _ _ _ => array_ne_null _ _) (valuesAt_written _ (by simp))
  · exact hsub.again_optional (fun part => DifferenceDocument.readsBack part.1)
      (fun _ _ _ _ => object_ne_null _) (valuesAt_written _ (by simp))
  · exact hmul.again_optional hrows (fun _ _ _ _ => array_ne_null _ _) (valuesAt_written _ (by simp))
  · exact hdiv.again_optional hrows (fun _ _ _ _ => array_ne_null _ _) (valuesAt_written _ (by simp))
  · exact hpos.again_optional (fun part => OperandDocument.readsBack part.1)
      (fun _ _ d _ => d.write_ne_null) (valuesAt_written _ (by simp))
  · exact hoperand.again_optional (fun part => OperandDocument.readsBack part.1)
      (fun _ _ d _ => d.write_ne_null) (valuesAt_written _ (by simp))
termination_by sizeOf v
decreasing_by
  · exact Nat.lt_trans item.2 row.2
  · exact part.2
  · exact part.2
  · exact part.2

theorem DifferenceDocument.readsBack (v : Json) :
    ReadsBack DifferenceDocument.read DifferenceDocument.write v := by
  intro d h
  rw [DifferenceDocument.read_eq] at h
  obtain ⟨_, subtrahend, rfl, h, hsubtrahend⟩ := (Record.canGive_of_read h).of_seq
  obtain ⟨minuend, rfl, hminuend⟩ := h.of_map
  rw [DifferenceDocument.write, DifferenceDocument.read_eq, OperandDocument.write?_eq,
    OperandDocument.write?_eq]
  refine Record.Gives.read (.seq (.map _ ?_) ?_)
  · exact hminuend.again_optional (fun part => OperandDocument.readsBack part.1)
      (fun _ _ d _ => d.write_ne_null) (valuesAt_written _ (by simp))
  · exact hsubtrahend.again_optional (fun part => OperandDocument.readsBack part.1)
      (fun _ _ d _ => d.write_ne_null) (valuesAt_written _ (by simp))
termination_by sizeOf v
decreasing_by all_goals exact part.2

/-- An operand document that was read is read back. -/
theorem OperandDocument.readsBack (v : Json) :
    ReadsBack OperandDocument.read OperandDocument.write v := by
  intro d h
  rw [OperandDocument.read_eq] at h
  obtain ⟨_, nested, rfl, h, hnested⟩ := (Record.canGive_of_read h).of_seq
  obtain ⟨_, name, rfl, h, _⟩ := h.of_seq
  obtain ⟨_, constant, rfl, h, hconstant⟩ := h.of_seq
  obtain ⟨meter, rfl, hmeter⟩ := h.of_map
  rw [OperandDocument.write, OperandDocument.read_eq, FormulaDocument.write?_eq]
  refine Record.Gives.read (.seq (.seq (.seq (.map _ ?_) ?_) ?_) ?_)
  · exact hmeter.again_optional (fun part => MeterDocument.readsBack part.1)
      (fun _ _ _ _ => object_ne_null _) (valuesAt_written _ (by simp))
  · -- a constant is written as it is, in canonical form
    refine hconstant.again_optional (fun part => anything_readsBack part.1)
      (fun _ hne _ => anything_ne_null hne) ?_
    rw [Option.map_id_fun, id_eq]
    exact valuesAt_written _ (by simp)
  · exact Record.gives_text (valuesAt_written _ (by simp))
  · exact hnested.again_optional (fun part => FormulaDocument.readsBack part.1)
      (fun _ _ d _ => d.write_ne_null) (valuesAt_written _ (by simp))
termination_by sizeOf v
decreasing_by exact part.2

end

/-! ### Locations -/

theorem SliceDocument.readsBack (v : Json) :
    ReadsBack SliceDocument.read SliceDocument.write v := by
  intro d h
  obtain ⟨_, formula, rfl, h, hformula⟩ := (Record.canGive_of_read h).of_seq
  obtain ⟨_, validTo, rfl, h, _⟩ := h.of_seq
  obtain ⟨_, validFrom, rfl, h, _⟩ := h.of_seq
  obtain ⟨_, quality, rfl, h, _⟩ := h.of_seq
  obtain ⟨id, rfl, hid⟩ := h.of_map
  refine Record.Gives.read (.seq (.seq (.seq (.seq (.map _ ?_) ?_) ?_) ?_) ?_)
  · exact hid.again_optional (fun part => integer_readsBack part.1) (fun _ _ _ _ => nofun)
      (valuesAt_written _ (by simp))
  · exact Record.gives_text (valuesAt_written _ (by simp))
  · exact Record.gives_text (valuesAt_written _ (by simp))
  · exact Record.gives_text (valuesAt_written _ (by simp))
  · exact hformula.again_optional (fun part => FormulaDocument.readsBack part.1)
      (fun _ _ d _ => d.write_ne_null) (valuesAt_written _ (by simp))

/-- A location document that was read is read back. -/
theorem LocationDocument.readsBack (v : Json) :
    ReadsBack LocationDocument.read LocationDocument.write v := by
  intro d h
  obtain ⟨_, slices, rfl, h, hslices⟩ := (Record.canGive_of_read h).of_seq
  obtain ⟨_, networkId, rfl, h, _⟩ := h.of_seq
  obtain ⟨marketId, rfl, _⟩ := h.of_map
  refine Record.Gives.read (.seq (.seq (.map _ ?_) ?_) ?_)
  · exact Record.gives_text (valuesAt_written _ (by simp))
  · exact Record.gives_text (valuesAt_written _ (by simp))
  · exact hslices.again_optional
      (fun part => list_readsBack fun item => SliceDocument.readsBack item.1)
      (fun _ _ _ _ => array_ne_null _ _) (valuesAt_written _ (by simp))

end EnergyFormula
