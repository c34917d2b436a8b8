import EnergyFormula.Proofs.Identifier.Literal
import EnergyFormula.Proofs.Validation.Reading

/-!
# Formulas through their documents

The document of a formula stands for this formula (`Formula.reads_document`): every operator with
operands, literal, share and identifier is written in a form that is read as the same value.  So a
formula that is validated through its document comes back as it is, unless it is too deep, and then
nothing but its depth is reported (`Formula.validate_own_document`).

Of a literal only the text is written, and its number is read from the text
(`ConstLiteral.parse_text`).
-/

namespace EnergyFormula

/-! ### Values -/

theorem EnergyDirection.ofText?_text (e : EnergyDirection) :
    EnergyDirection.ofText? e.text = some e := by
  cases e <;> decide

theorem Percent.reads_document (absent p : Percent) :
    PercentDocument.Reads absent (some p.document) p :=
  Percent.ofNumber_value p

theorem MeterOperand.reads_document (m : MeterOperand) : m.document.Reads m where
  meter := rfl
  direction := EnergyDirection.ofText?_text m.direction
  transformerLoss := Percent.reads_document .zero m.transformerLoss
  conductionLoss := Percent.reads_document .zero m.conductionLoss
  distribution := Percent.reads_document .one m.distribution

/-! ### The document of a formula stands for it, and for nothing else -/

theorem Operand.allRead_documents {ops : List Operand} (h : ∀ op ∈ ops, op.document.Reads op) :
    OperandDocument.AllRead (Operand.documents ops) ops := by
  induction ops with
  | nil => exact .nil
  | cons op rest ih =>
    rw [List.forall_mem_cons] at h
    exact .cons h.1 (ih h.2)

theorem Operand.reads_document {op : Operand}
    (hnested : ∀ g, op = .nested g → g.document.Reads g) : op.document.Reads op := by
  cases op with
  | meter m => exact .meter m.reads_document
  | constant c => exact .constant c.parse_text
  | «variable» v => exact .formulaVariable v
  | nested g => exact .nested (hnested g rfl)

/-- The document of a formula stands for the formula. -/
theorem Formula.reads_document (f : Formula) (hops : f.HasOperands) : f.document.Reads f := by
  induction f using Formula.induction with
  | step f ih =>
    have hne : f.operands ≠ [] := hops f (.self f)
    have hop : ∀ op ∈ f.operands, op.document.Reads op := by
      intro op hmem
      refine Operand.reads_document ?_
      rintro g rfl
      exact ih g hmem (hops.nested hmem)
    cases f with
    | add ops => exact .add (Operand.allRead_documents hop) hne
    | sub a b => exact .sub (hop a (by simp [operands])) (hop b (by simp [operands]))
    | mul ops => exact .mul (Operand.allRead_documents hop) hne
    | div ops => exact .div (Operand.allRead_documents hop) hne
    | pos op => exact .pos (hop op List.mem_cons_self)
    | operand op => exact .operand (hop op List.mem_cons_self)

theorem MeterOperand.eq_of_reads_document {m m' : MeterOperand} (h : m.document.Reads m') :
    m' = m := by
  have hm := MeterDocument.check_eq_valid_iff.2 m.reads_document
  rw [MeterDocument.check_eq_valid_iff.2 h] at hm
  exact Checked.valid.inj hm

theorem Operand.eq_of_allRead_documents {ops ops' : List Operand}
    (hop : ∀ op ∈ ops, ∀ op', op.document.Reads op' → op' = op)
    (h : OperandDocument.AllRead (Operand.documents ops) ops') : ops' = ops := by
  induction ops generalizing ops' with
  | nil =>
    cases h
    rfl
  | cons op rest ih =>
    rw [List.forall_mem_cons] at hop
    rw [documents] at h
    cases h with
    | cons hd hds => rw [hop.1 _ hd, ih hop.2 hds]

theorem OperandDocument.Reads.eq_variable {s : String} {op : Operand}
    (h : OperandDocument.Reads ⟨none, none, some s, none⟩ op) :
    ∃ v : FormulaVariable, v.text = s ∧ op = .variable v := by
  cases h with
  | formulaVariable v => exact ⟨v, rfl, rfl⟩

/-- The document of an operand stands for no other operand. -/
theorem Operand.eq_of_reads_document {op op' : Operand}
    (hnested : ∀ k, op = .nested k → ∀ g, k.document.Reads g → g = k)
    (h : op.document.Reads op') : op' = op := by
  cases op with
  | meter m =>
    cases h with
    | meter hm => rw [MeterOperand.eq_of_reads_document hm]
  | constant c =>
    cases h with
    | constant hc => rw [Except.ok.inj (hc.symm.trans c.parse_text)]
  | «variable» v =>
    obtain ⟨u, hu, rfl⟩ := OperandDocument.Reads.eq_variable h
    rw [Except.ok.inj ((Identifier.parse_eq_ok_iff.2 hu).symm.trans v.parse_text)]
  | nested k =>
    cases h with
    | nested hk => rw [hnested k rfl _ hk]

/-- The document of a formula stands for no other formula. -/
theorem Formula.eq_of_reads_document {f g : Formula} (h : f.document.Reads g) : g = f := by
  induction f using Formula.induction generalizing g with
  | step f ih =>
    have hop : ∀ op ∈ f.operands, ∀ op', op.document.Reads op' → op' = op := by
      intro op hmem op' hread
      refine Operand.eq_of_reads_document ?_ hread
      rintro k rfl g hk
      exact ih k hmem hk
    cases f with
    | add ops =>
      cases h with
      | add hds _ => exact congrArg add (Operand.eq_of_allRead_documents hop hds)
    | sub a b =>
      cases h with
      | sub ha hb =>
        rw [hop a (by simp [operands]) _ ha, hop b (by simp [operands]) _ hb]
    | mul ops =>
      cases h with
      | mul hds _ => exact congrArg mul (Operand.eq_of_allRead_documents hop hds)
    | div ops =>
      cases h with
      | div hds _ => exact congrArg div (Operand.eq_of_allRead_documents hop hds)
    | pos op =>
      cases h with
      | pos hd => rw [hop op List.mem_cons_self _ hd]
    | operand op =>
      cases h with
      | operand hd => rw [hop op List.mem_cons_self _ hd]

/-- What is read from the document of a formula is the formula, if no operator lacks operands. -/
theorem Formula.reads_document_iff {f g : Formula} :
    f.document.Reads g ↔ g = f ∧ f.HasOperands := by
  constructor
  · intro h
    obtain rfl := eq_of_reads_document h
    exact ⟨rfl, fun _ hpart => h.operands_ne_nil_of_part hpart⟩
  · rintro ⟨rfl, hops⟩
    exact g.reads_document hops

/-! ### Findings of a document that stands for a formula -/

/-- An operator with operands checks them one by one. -/
theorem OperandDocument.checkRow?_eq_some {limit depth : Nat} {operator : String}
    {make : List Operand → Formula} {ds : List OperandDocument} (hne : ds ≠ []) :
    OperandDocument.checkRow? limit depth operator make (some ds) =
      some (make <$> (OperandDocument.checkAll limit depth 0 ds).within [.field operator]) := by
  cases ds with
  | nil => exact absurd rfl hne
  | cons d ds => rw [OperandDocument.checkRow?]

theorem OperandDocument.AllRead.ne_nil {ds : List OperandDocument} {ops : List Operand}
    (h : OperandDocument.AllRead ds ops) (hne : ops ≠ []) : ds ≠ [] := by
  cases h with
  | nil => exact absurd rfl hne
  | cons _ _ => exact List.cons_ne_nil _ _

/-- Beyond the limit nothing else is found, so only what is found within it counts. -/
theorem FormulaDocument.findsOnly_check {limit depth : Nat} {d : FormulaDocument}
    {x : Checked Formula}
    (hcheck : d.check limit depth =
      if limit < depth then .fail (.here (.depthExceeded limit)) else x)
    (hx : x.FindsOnly (· = .depthExceeded limit)) :
    (d.check limit depth).FindsOnly (· = .depthExceeded limit) := by
  rw [hcheck]
  split
  · exact Checked.findsOnly_fail rfl
  · exact hx

-- By recursion over the reading.  Whatever stands for a formula has exactly one operator or
-- variant, so the check of a node is that of its parts.
mutual

/-- A document that stands for a formula is refused for nothing but its depth. -/
theorem FormulaDocument.Reads.findsOnly {limit depth : Nat} {d : FormulaDocument}
    {f : Formula} : d.Reads f → (d.check limit depth).FindsOnly (· = .depthExceeded limit)
  | .add hds hne | .mul hds hne | .div hds hne => by
    apply FormulaDocument.findsOnly_check
    · rw [FormulaDocument.check, OperandDocument.checkRow?_eq_some (hds.ne_nil hne)]
    · exact (hds.findsOnly.within _).map _
  | .sub ha hb =>
    FormulaDocument.findsOnly_check rfl
      ((((ha.findsOnly.within _).map _).seq (hb.findsOnly.within _)).within _)
  | .pos hd => FormulaDocument.findsOnly_check rfl ((hd.findsOnly.within _).map _)
  | .operand hd => FormulaDocument.findsOnly_check rfl ((hd.findsOnly.within _).map _)

theorem OperandDocument.Reads.findsOnly {limit depth : Nat} {d : OperandDocument}
    {op : Operand} : d.Reads op → (d.check limit depth).FindsOnly (· = .depthExceeded limit)
  | .meter hm => by
    have hcheck := MeterDocument.check_eq_valid_iff.2 hm
    rw [OperandDocument.check, Option.map_some, hcheck]
    exact Checked.findsOnly_valid _
  | .constant hc => by
    rw [OperandDocument.check, Option.map_some, hc]
    exact Checked.findsOnly_valid _
  | .formulaVariable v => by
    rw [OperandDocument.check, Option.map_some, v.parse_text]
    exact Checked.findsOnly_valid _
  | .nested hd => by
    rw [OperandDocument.check]
    exact (hd.findsOnly.map _).within _

theorem OperandDocument.AllRead.findsOnly {limit depth index : Nat}
    {ds : List OperandDocument} {ops : List Operand} :
    OperandDocument.AllRead ds ops →
      (OperandDocument.checkAll limit depth index ds).FindsOnly (· = .depthExceeded limit)
  | .nil => Checked.findsOnly_valid _
  | .cons hd hds => by
    rw [OperandDocument.checkAll]
    exact ((hd.findsOnly.within _).map _).seq hds.findsOnly

end

/-! ### Main result -/

/-- Validation takes the document of a formula back to the formula, up to the depth limit.  Beyond
it the findings all say that the limit is exceeded, and there is one at least. -/
theorem Formula.validate_own_document (f : Formula) (limit : Nat) (hops : f.HasOperands) :
    (f.depth ≤ limit → f.document.validate limit = .valid f) ∧
      (limit < f.depth → ∃ first others, f.document.validate limit = .invalid first others ∧
        ∀ finding ∈ first :: others, finding.info.code = .depthLimitExceeded) := by
  have hread := f.reads_document hops
  constructor
  · intro hle
    exact FormulaDocument.validate_eq_valid_iff.2 ⟨hread, hle⟩
  · intro hlt
    have honly : (f.document.validate limit).FindsOnly (· = .depthExceeded limit) :=
      hread.findsOnly.within _
    cases hvalidate : f.document.validate limit with
    | valid g =>
      -- only the formula itself is read from its document, and it is too deep
      obtain ⟨hg, hle⟩ := FormulaDocument.validate_eq_valid_iff.1 hvalidate
      rw [eq_of_reads_document hg] at hle
      omega
    | invalid first others =>
      rw [hvalidate] at honly
      refine ⟨first, others, rfl, fun finding hmem => ?_⟩
      show finding.defect.code = .depthLimitExceeded
      rw [honly finding hmem]
      rfl

/-- What was metered, less a tenth. -/
def Formula.lessTenth : Formula :=
  .sub (.meter (.lossless ⟨"DE00056266802AO6G56M11SN51G21M24S", by decide⟩ .production))
    (.constant .tenth)

/-- The absolute value of this difference. -/
def Formula.twoLevels : Formula :=
  .pos (.nested lessTenth)

theorem Formula.hasOperands_twoLevels : twoLevels.HasOperands := by
  refine hasOperands_of_nested (List.cons_ne_nil _ _) fun g hg => ?_
  obtain rfl : g = lessTenth := by simpa [twoLevels, operands] using hg
  refine hasOperands_of_nested (List.cons_ne_nil _ _) fun g hg => ?_
  simp [lessTenth, operands] at hg

/-- The formula has two levels: the limit two admits it, and the limit one does not. -/
theorem Formula.validate_own_document_twoLevels :
    twoLevels.HasOperands ∧ twoLevels.document.validate 2 = .valid twoLevels ∧
      ∃ first others, twoLevels.document.validate 1 = .invalid first others ∧
        ∀ finding ∈ first :: others, finding.info.code = .depthLimitExceeded := by
  have hops := hasOperands_twoLevels
  have hvalid := (twoLevels.validate_own_document 2 hops).1 (by decide)
  have hinvalid := (twoLevels.validate_own_document 1 hops).2 (by decide)
  exact ⟨hops, hvalid, hinvalid⟩

end EnergyFormula
