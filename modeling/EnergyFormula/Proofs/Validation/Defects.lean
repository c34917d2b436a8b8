import EnergyFormula.Validation.Formula

/-!
# The defects of formula documents

`FormulaDocument.HasDefect` says what is wrong with a document and where, without any check: a
formula beyond the depth limit, a formula or an operand without exactly one variant, a row without
operands, a missing side of a difference, and a malformed part of an operand, wherever it stands.
Beyond the limit nothing is looked at.  A check finds exactly these defects, each at its place
(`FormulaDocument.mem_check_iff`).
-/

namespace EnergyFormula

/-! ### Defects -/

/-- The shares of a metered quantity by their fields. -/
def MeterDocument.shares (d : MeterDocument) : List (String × Option PercentDocument) :=
  [("lossFactorTransformer", d.transformerLoss), ("lossFactorConduction", d.conductionLoss),
    ("distributionFactorEnergyQuantity", d.distribution)]

theorem MeterDocument.mem_shares_iff {d : MeterDocument} {field : String}
    {share : Option PercentDocument} : (field, share) ∈ d.shares ↔
      (field = "lossFactorTransformer" ∧ share = d.transformerLoss) ∨
        (field = "lossFactorConduction" ∧ share = d.conductionLoss) ∨
          (field = "distributionFactorEnergyQuantity" ∧ share = d.distribution) := by
  simp [shares]

/-- The defect is in the metered quantity, at the end of the path. -/
inductive MeterDocument.HasDefect (d : MeterDocument) : Path → Defect → Prop
  | missing : d.meter = none →
    HasDefect d [.field "meloId"] (.missingIdentifier "meloId")
  | identifier {s : String} {e : MalformedIdentifier} :
    d.meter = some s → Identifier.parse .meterLocationId s = .error e →
      HasDefect d [.field "meloId"] (.malformed e)
  | direction {s : String} :
    d.direction = some s → EnergyDirection.ofText? s = none →
      HasDefect d [.field "energyDirection"] (.unknownDirection s)
  | share {field : String} {share : PercentDocument} {v : Json} {e : MalformedIdentifier} :
    (field, some share) ∈ d.shares → share.value = some v → Percent.ofJson v = .error e →
      HasDefect d [.field field] (.malformed e)

/-- The operators over a row of operands. -/
def FormulaDocument.rows (d : FormulaDocument) : List (String × Option (List OperandDocument)) :=
  [("add", d.add), ("mul", d.mul), ("div", d.div)]

theorem FormulaDocument.mem_rows_iff {d : FormulaDocument} {operator : String}
    {ds : Option (List OperandDocument)} : (operator, ds) ∈ d.rows ↔
      (operator = "add" ∧ ds = d.add) ∨ (operator = "mul" ∧ ds = d.mul) ∨
        (operator = "div" ∧ ds = d.div) := by
  simp [rows]

/-- The operators over a single operand. -/
def FormulaDocument.singles (d : FormulaDocument) : List (String × Option OperandDocument) :=
  [("pos", d.pos), ("operand", d.operand)]

theorem FormulaDocument.mem_singles_iff {d : FormulaDocument} {operator : String}
    {o : Option OperandDocument} : (operator, o) ∈ d.singles ↔
      (operator = "pos" ∧ o = d.pos) ∨ (operator = "operand" ∧ o = d.operand) := by
  simp [singles]

/-- The two sides of a difference. -/
def DifferenceDocument.sides (d : DifferenceDocument) : List (String × Option OperandDocument) :=
  [("minuend", d.minuend), ("subtrahend", d.subtrahend)]

theorem DifferenceDocument.mem_sides_iff {d : DifferenceDocument} {side : String}
    {o : Option OperandDocument} : (side, o) ∈ d.sides ↔
      (side = "minuend" ∧ o = d.minuend) ∨ (side = "subtrahend" ∧ o = d.subtrahend) := by
  simp [sides]

mutual

/-- The defect is in the formula, which is `depth` formulas deep, at the end of the path. -/
inductive FormulaDocument.HasDefect (limit : Nat) : Nat → FormulaDocument → Path → Defect → Prop
  | deep {depth : Nat} {d : FormulaDocument} :
    limit < depth → FormulaDocument.HasDefect limit depth d [] (.depthExceeded limit)
  | union {depth : Nat} {d : FormulaDocument} :
    depth ≤ limit → d.operators.length ≠ 1 →
      FormulaDocument.HasDefect limit depth d [] (.formulaUnion d.operators)
  | emptyRow {depth : Nat} {d : FormulaDocument} {operator : String} :
    depth ≤ limit → (operator, some []) ∈ d.rows →
      FormulaDocument.HasDefect limit depth d [.field operator] (.emptyOperands operator)
  | row {depth k : Nat} {d : FormulaDocument} {operator : String} {ds : List OperandDocument}
    {o : OperandDocument} {p : Path} {e : Defect} :
    depth ≤ limit → (operator, some ds) ∈ d.rows → ds[k]? = some o →
      OperandDocument.HasDefect limit depth o p e →
        FormulaDocument.HasDefect limit depth d (.field operator :: .item k :: p) e
  | missingSide {depth : Nat} {d : FormulaDocument} {s : DifferenceDocument} {side : String} :
    depth ≤ limit → d.sub = some s → (side, none) ∈ s.sides →
      FormulaDocument.HasDefect limit depth d [.field "sub", .field side] (.missingOperand side)
  | side {depth : Nat} {d : FormulaDocument} {s : DifferenceDocument} {side : String}
    {o : OperandDocument} {p : Path} {e : Defect} :
    depth ≤ limit → d.sub = some s → (side, some o) ∈ s.sides →
      OperandDocument.HasDefect limit depth o p e →
        FormulaDocument.HasDefect limit depth d (.field "sub" :: .field side :: p) e
  | single {depth : Nat} {d : FormulaDocument} {operator : String} {o : OperandDocument} {p : Path}
    {e : Defect} :
    depth ≤ limit → (operator, some o) ∈ d.singles → OperandDocument.HasDefect limit depth o p e →
      FormulaDocument.HasDefect limit depth d (.field operator :: p) e

/-- The defect is in the operand of a formula that is `depth` formulas deep, at the end of the
path. -/
inductive OperandDocument.HasDefect (limit : Nat) : Nat → OperandDocument → Path → Defect → Prop
  | union {depth : Nat} {o : OperandDocument} :
    o.variants.length ≠ 1 → OperandDocument.HasDefect limit depth o [] (.operandUnion o.variants)
  | meter {depth : Nat} {o : OperandDocument} {m : MeterDocument} {p : Path} {e : Defect} :
    o.meter = some m → m.HasDefect p e →
      OperandDocument.HasDefect limit depth o (.field "meloOperand" :: p) e
  | constant {depth : Nat} {o : OperandDocument} {v : Json} {e : MalformedIdentifier} :
    o.constant = some v → ConstLiteral.ofJson v = .error e →
      OperandDocument.HasDefect limit depth o [.field "const"] (.malformed e)
  | formulaVariable {depth : Nat} {o : OperandDocument} {s : String} {e : MalformedIdentifier} :
    o.formulaVariable = some s → Identifier.parse .formulaVariable s = .error e →
      OperandDocument.HasDefect limit depth o [.field "formulaVar"] (.malformed e)
  | nested {depth : Nat} {o : OperandDocument} {d : FormulaDocument} {p : Path} {e : Defect} :
    o.nested = some d → FormulaDocument.HasDefect limit (depth + 1) d p e →
      OperandDocument.HasDefect limit depth o (.field "calculationFormula" :: p) e

end

/-- The defect is in one of the operands of a row, whose places are counted from `index` on. -/
def OperandDocument.RowHasDefect (limit depth index : Nat) (ds : List OperandDocument) (p : Path)
    (e : Defect) : Prop :=
  ∃ k o q, ds[k]? = some o ∧ p = .item (index + k) :: q ∧
    OperandDocument.HasDefect limit depth o q e

/-! ### Findings of combined checks -/

namespace Checked

variable {α β : Type}

/-- The findings of an alternative, if it is present. -/
def presentFindings (x : Option (Checked α)) : List Finding :=
  x.elim [] findings

theorem mem_findings_ofExcept {ε : Type} {defect : ε → Defect} {x : Except ε α} {f : Finding} :
    f ∈ (ofExcept defect x).findings ↔ ∃ e, x = .error e ∧ f = .here (defect e) := by
  cases x <;> simp [ofExcept, fail, findings]

/-- The findings of all alternatives, and one more unless there is exactly one. -/
theorem findings_only (alternatives : List (Checked α)) (ambiguous : Finding) :
    (only alternatives ambiguous).findings =
      alternatives.flatMap findings ++ if alternatives.length = 1 then [] else [ambiguous] := by
  unfold only
  split
  · simp
  · rename_i hne
    have hlength : alternatives.length ≠ 1 := by
      intro h
      obtain ⟨x, rfl⟩ := List.length_eq_one_iff.1 h
      exact hne x rfl
    rw [findings_failAfter, if_neg hlength]

theorem flatMap_presentChecks (alternatives : List (Option (Checked α))) :
    (presentChecks alternatives).flatMap findings = alternatives.flatMap presentFindings := by
  induction alternatives with
  | nil => rfl
  | cons x rest ih =>
    unfold presentChecks at ih
    cases x with
    | none => exact ih
    | some x => exact congrArg (x.findings ++ ·) ih

theorem length_presentChecks (alternatives : List (Option (Checked α))) :
    (presentChecks alternatives).length = alternatives.countP Option.isSome := by
  induction alternatives with
  | nil => rfl
  | cons x rest ih =>
    unfold presentChecks at ih
    cases x with
    | none => simpa [presentChecks] using ih
    | some x => simpa [presentChecks] using ih

end Checked

theorem length_presentNames (fields : List (String × Bool)) :
    (presentNames fields).length = fields.countP Prod.snd := by
  rw [presentNames, List.length_map, List.countP_eq_length_filter]

theorem Checked.mem_findings_within {α : Type} {steps : Path} {x : Checked α} {f : Finding} :
    f ∈ (x.within steps).findings ↔ ∃ g ∈ x.findings, f = g.within steps := by
  rw [findings_within, List.mem_map]
  exact exists_congr fun g => and_congr_right fun _ => eq_comm

/-- A check that finds certain defects finds them behind the steps of an enclosing document. -/
theorem Checked.mem_findings_within_iff {α : Type} {steps : Path} {x : Checked α}
    {has : Path → Defect → Prop} (h : ∀ g, g ∈ x.findings ↔ has g.path g.defect) {f : Finding} :
    f ∈ (x.within steps).findings ↔ ∃ p, f.path = steps ++ p ∧ has p f.defect := by
  rw [mem_findings_within]
  constructor
  · rintro ⟨g, hg, rfl⟩
    exact ⟨g.path, rfl, (h g).1 hg⟩
  · obtain ⟨path, defect⟩ := f
    rintro ⟨p, rfl, hp⟩
    exact ⟨⟨p, defect⟩, (h _).2 hp, rfl⟩

theorem Checked.mem_presentFindings_map {α β : Type} {check : β → Checked α} {d : Option β}
    {f : Finding} :
    f ∈ presentFindings (d.map check) ↔ ∃ x, d = some x ∧ f ∈ (check x).findings := by
  cases d <;> simp [presentFindings]

/-! ### Metered quantities -/

theorem PercentDocument.mem_check_iff {absent : Percent} {field : String}
    {d : Option PercentDocument} {f : Finding} :
    f ∈ (PercentDocument.check absent field d).findings ↔
      ∃ share v e, d = some share ∧ share.value = some v ∧ Percent.ofJson v = .error e ∧
        f = .inField field (.malformed e) := by
  unfold PercentDocument.check
  constructor
  · intro h
    cases hv : d.bind PercentDocument.value with
    | none =>
      rw [hv] at h
      cases h
    | some v =>
      rw [hv] at h
      obtain ⟨share, hshare, hvalue⟩ := Option.bind_eq_some_iff.1 hv
      obtain ⟨g, hg, rfl⟩ := Checked.mem_findings_within.1 h
      obtain ⟨e, he, rfl⟩ := Checked.mem_findings_ofExcept.1 hg
      exact ⟨share, v, e, hshare, hvalue, he, rfl⟩
  · rintro ⟨share, v, e, rfl, hvalue, he, rfl⟩
    rw [Option.bind_some, hvalue]
    exact Checked.mem_findings_within.2 ⟨_, Checked.mem_findings_ofExcept.2 ⟨e, he, rfl⟩, rfl⟩

theorem MeterDocument.mem_checkMeter_iff {d : MeterDocument} {f : Finding} :
    f ∈ d.checkMeter.findings ↔
      (d.meter = none ∧ f = .inField "meloId" (.missingIdentifier "meloId")) ∨
        ∃ s e, d.meter = some s ∧ Identifier.parse .meterLocationId s = .error e ∧
          f = .inField "meloId" (.malformed e) := by
  unfold MeterDocument.checkMeter
  dsimp only
  rw [Checked.mem_findings_within]
  cases hmeter : d.meter with
  | none =>
    constructor
    · rintro ⟨g, hg, rfl⟩
      rw [List.mem_singleton.1 hg]
      exact .inl ⟨rfl, rfl⟩
    · rintro (⟨_, rfl⟩ | ⟨s, e, hs, _⟩)
      · exact ⟨_, List.mem_singleton.2 rfl, rfl⟩
      · cases hs
  | some s =>
    constructor
    · rintro ⟨g, hg, rfl⟩
      obtain ⟨e, he, rfl⟩ := Checked.mem_findings_ofExcept.1 hg
      exact .inr ⟨s, e, rfl, he, rfl⟩
    · rintro (⟨hs, _⟩ | ⟨_, e, hs, he, rfl⟩)
      · cases hs
      · cases hs
        exact ⟨_, Checked.mem_findings_ofExcept.2 ⟨e, he, rfl⟩, rfl⟩

theorem MeterDocument.mem_checkDirection_iff {d : MeterDocument} {f : Finding} :
    f ∈ d.checkDirection.findings ↔ ∃ s, d.direction = some s ∧
      EnergyDirection.ofText? s = none ∧ f = .inField "energyDirection" (.unknownDirection s) := by
  unfold MeterDocument.checkDirection
  constructor
  · intro h
    cases hs : d.direction with
    | none =>
      rw [hs] at h
      cases h
    | some s =>
      rw [hs] at h
      dsimp only at h
      cases hnone : EnergyDirection.ofText? s with
      | none =>
        rw [hnone] at h
        exact ⟨s, rfl, hnone, List.mem_singleton.1 h⟩
      | some direction =>
        rw [hnone] at h
        cases h
  · rintro ⟨s, hs, hnone, rfl⟩
    rw [hs]
    dsimp only
    rw [hnone]
    exact List.mem_singleton.2 rfl

/-- The check of a metered quantity finds its defects. -/
theorem MeterDocument.mem_check_iff {d : MeterDocument} {f : Finding} :
    f ∈ d.check.findings ↔ d.HasDefect f.path f.defect := by
  simp only [MeterDocument.check, Checked.findings_seq, Checked.findings_map, List.mem_append,
    mem_checkMeter_iff, mem_checkDirection_iff, PercentDocument.mem_check_iff]
  constructor
  · rintro (((((⟨h, rfl⟩ | ⟨s, e, h, he, rfl⟩) | ⟨s, h, he, rfl⟩) | ⟨share, v, e, h, hv, he, rfl⟩) |
      ⟨share, v, e, h, hv, he, rfl⟩) | ⟨share, v, e, h, hv, he, rfl⟩)
    · exact .missing h
    · exact .identifier h he
    · exact .direction h he
    · exact .share (by simp [shares, h]) hv he
    · exact .share (by simp [shares, h]) hv he
    · exact .share (by simp [shares, h]) hv he
  · obtain ⟨path, defect⟩ := f
    intro h
    cases h with
    | missing h => exact .inl (.inl (.inl (.inl (.inl ⟨h, rfl⟩))))
    | identifier h he => exact .inl (.inl (.inl (.inl (.inr ⟨_, _, h, he, rfl⟩))))
    | direction h he => exact .inl (.inl (.inl (.inr ⟨_, h, he, rfl⟩)))
    | share h hv he =>
      rcases mem_shares_iff.1 h with ⟨rfl, hshare⟩ | ⟨rfl, hshare⟩ | ⟨rfl, hshare⟩
      · exact .inl (.inl (.inr ⟨_, _, _, hshare.symm, hv, he, rfl⟩))
      · exact .inl (.inr ⟨_, _, _, hshare.symm, hv, he, rfl⟩)
      · exact .inr ⟨_, _, _, hshare.symm, hv, he, rfl⟩

/-! ### Formulas and operands -/

theorem FormulaDocument.findings_check {limit depth : Nat} (hdepth : depth ≤ limit)
    (d : FormulaDocument) :
    (d.check limit depth).findings =
      Checked.presentFindings (OperandDocument.checkRow? limit depth "add" .add d.add) ++
        (Checked.presentFindings (DifferenceDocument.check? limit depth d.sub) ++
          (Checked.presentFindings (OperandDocument.checkRow? limit depth "mul" .mul d.mul) ++
            (Checked.presentFindings (OperandDocument.checkRow? limit depth "div" .div d.div) ++
              (Checked.presentFindings (OperandDocument.checkSingle? limit depth "pos" .pos d.pos) ++
                Checked.presentFindings
                  (OperandDocument.checkSingle? limit depth "operand" .operand d.operand))))) ++
          if d.operators.length = 1 then [] else [.here (.formulaUnion d.operators)] := by
  obtain ⟨add, sub, mul, div, pos, operand⟩ := d
  have hrow : ∀ operator make (ds : Option (List OperandDocument)),
      (OperandDocument.checkRow? limit depth operator make ds).isSome = ds.isSome := by
    rintro operator make (_ | _ | ⟨d, ds⟩) <;> simp [OperandDocument.checkRow?]
  have hsingle : ∀ operator make (d : Option OperandDocument),
      (OperandDocument.checkSingle? limit depth operator make d).isSome = d.isSome := by
    rintro operator make (_ | d) <;> simp [OperandDocument.checkSingle?]
  have hdifference : (DifferenceDocument.check? limit depth sub).isSome = sub.isSome := by
    rcases sub with _ | ⟨_, _⟩ <;> simp [DifferenceDocument.check?]
  rw [FormulaDocument.check, if_neg (Nat.not_lt.2 hdepth), Checked.findings_only,
    Checked.flatMap_presentChecks, Checked.length_presentChecks, operators, length_presentNames]
  simp only [List.flatMap_cons, List.flatMap_nil, List.append_nil, List.countP_cons, List.countP_nil,
    hrow, hsingle, hdifference]

theorem OperandDocument.findings_check (limit depth : Nat) (o : OperandDocument) :
    (o.check limit depth).findings =
      Checked.presentFindings (o.meter.map fun m =>
          (Operand.meter <$> m.check).within [.field "meloOperand"]) ++
        (Checked.presentFindings (o.constant.map fun v => (Operand.constant <$>
            Checked.ofExcept Defect.malformed (ConstLiteral.ofJson v)).within [.field "const"]) ++
          (Checked.presentFindings (o.formulaVariable.map fun s => (Operand.variable <$>
              Checked.ofExcept Defect.malformed (Identifier.parse .formulaVariable s)).within
                [.field "formulaVar"]) ++
            Checked.presentFindings (FormulaDocument.checkNested? limit depth o.nested))) ++
          if o.variants.length = 1 then [] else [.here (.operandUnion o.variants)] := by
  obtain ⟨meter, constant, formulaVariable, nested⟩ := o
  have hnested : (FormulaDocument.checkNested? limit depth nested).isSome = nested.isSome := by
    cases nested <;> simp [FormulaDocument.checkNested?]
  rw [OperandDocument.check, Checked.findings_only, Checked.flatMap_presentChecks,
    Checked.length_presentChecks, variants, length_presentNames]
  simp only [List.flatMap_cons, List.flatMap_nil, List.append_nil, List.countP_cons, List.countP_nil,
    Option.isSome_map, hnested]

theorem mem_unless_single {present : List String} {ambiguous f : Finding} :
    f ∈ (if present.length = 1 then [] else [ambiguous]) ↔ present.length ≠ 1 ∧ f = ambiguous := by
  by_cases h : present.length = 1 <;> simp [h]

theorem OperandDocument.mem_malformed_iff {α β γ : Type} {make : α → β} {field : String}
    {parse : γ → Except MalformedIdentifier α} {d : Option γ} {f : Finding} :
    f ∈ Checked.presentFindings (d.map fun v =>
        (make <$> Checked.ofExcept Defect.malformed (parse v)).within [.field field]) ↔
      ∃ v e, d = some v ∧ parse v = .error e ∧ f = .inField field (.malformed e) := by
  rw [Checked.mem_presentFindings_map]
  constructor
  · rintro ⟨v, hv, hf⟩
    obtain ⟨g, hg, rfl⟩ := Checked.mem_findings_within.1 hf
    rw [Checked.findings_map] at hg
    obtain ⟨e, he, rfl⟩ := Checked.mem_findings_ofExcept.1 hg
    exact ⟨v, e, hv, he, rfl⟩
  · rintro ⟨v, e, hv, he, rfl⟩
    refine ⟨v, hv, Checked.mem_findings_within.2 ⟨.here (.malformed e), ?_, rfl⟩⟩
    rw [Checked.findings_map]
    exact Checked.mem_findings_ofExcept.2 ⟨e, he, rfl⟩

theorem FormulaDocument.hasDefect_of_row {limit depth : Nat} (hdepth : depth ≤ limit)
    {d : FormulaDocument} {operator : String} {ds : Option (List OperandDocument)} {f : Finding}
    (hrow : (operator, ds) ∈ d.rows)
    (h : (ds = some [] ∧ f = .inField operator (.emptyOperands operator)) ∨
      ∃ xs k o p, ds = some xs ∧ xs[k]? = some o ∧ f.path = .field operator :: .item k :: p ∧
        OperandDocument.HasDefect limit depth o p f.defect) :
    d.HasDefect limit depth f.path f.defect := by
  rcases h with ⟨rfl, rfl⟩ | ⟨xs, k, o, p, rfl, hk, hpath, ho⟩
  · exact .emptyRow hdepth hrow
  · rw [hpath]
    exact .row hdepth hrow hk ho

-- By recursion over the document, as the checks go.  Each lemma says where the defects of a part
-- stand in the whole.
mutual

/-- The check of a formula finds its defects, each at its place. -/
theorem FormulaDocument.mem_check_iff {limit : Nat} :
    ∀ {depth : Nat} {d : FormulaDocument} {f : Finding},
      f ∈ (d.check limit depth).findings ↔ d.HasDefect limit depth f.path f.defect
  | depth, ⟨add, sub, mul, div, pos, operand⟩, ⟨path, defect⟩ => by
    by_cases hlimit : limit < depth
    · -- too deep, and nothing below is looked at
      rw [FormulaDocument.check, if_pos hlimit]
      constructor
      · intro h
        cases List.mem_singleton.1 h
        exact .deep hlimit
      · intro h
        cases h with
        | deep => exact List.mem_singleton.2 rfl
        | _ => omega
    have hdepth : depth ≤ limit := Nat.le_of_not_lt hlimit
    rw [FormulaDocument.findings_check hdepth]
    simp only [List.mem_append, mem_unless_single, OperandDocument.mem_checkRow?_iff,
      DifferenceDocument.mem_check?_iff, OperandDocument.mem_checkSingle?_iff]
    constructor
    · rintro ((h | ⟨s, rfl, h⟩ | h | h | ⟨o, p, rfl, rfl, ho⟩ | ⟨o, p, rfl, rfl, ho⟩) | ⟨hne, h⟩)
      · exact FormulaDocument.hasDefect_of_row hdepth (by simp [FormulaDocument.rows]) h
      · rcases h with ⟨side, hside, h⟩ | ⟨side, o, p, hside, rfl, ho⟩
        · cases h
          exact .missingSide hdepth rfl hside
        · exact .side hdepth rfl hside ho
      · exact FormulaDocument.hasDefect_of_row hdepth (by simp [FormulaDocument.rows]) h
      · exact FormulaDocument.hasDefect_of_row hdepth (by simp [FormulaDocument.rows]) h
      · exact .single hdepth (by simp [FormulaDocument.singles]) ho
      · exact .single hdepth (by simp [FormulaDocument.singles]) ho
      · cases h
        exact .union hdepth hne
    · intro h
      cases h with
      | deep h => omega
      | union _ hne => exact .inr ⟨hne, rfl⟩
      | emptyRow _ h =>
        rcases FormulaDocument.mem_rows_iff.1 h with ⟨rfl, rfl⟩ | ⟨rfl, rfl⟩ | ⟨rfl, rfl⟩
        · exact .inl (.inl (.inl ⟨rfl, rfl⟩))
        · exact .inl (.inr (.inr (.inl (.inl ⟨rfl, rfl⟩))))
        · exact .inl (.inr (.inr (.inr (.inl (.inl ⟨rfl, rfl⟩)))))
      | row _ h hk ho =>
        rcases FormulaDocument.mem_rows_iff.1 h with ⟨rfl, rfl⟩ | ⟨rfl, rfl⟩ | ⟨rfl, rfl⟩
        · exact .inl (.inl (.inr ⟨_, _, _, _, rfl, hk, rfl, ho⟩))
        · exact .inl (.inr (.inr (.inl (.inr ⟨_, _, _, _, rfl, hk, rfl, ho⟩))))
        · exact .inl (.inr (.inr (.inr (.inl (.inr ⟨_, _, _, _, rfl, hk, rfl, ho⟩)))))
      | missingSide _ hs hside => exact .inl (.inr (.inl ⟨_, hs, .inl ⟨_, hside, rfl⟩⟩))
      | side _ hs hside ho => exact .inl (.inr (.inl ⟨_, hs, .inr ⟨_, _, _, hside, rfl, ho⟩⟩))
      | single _ h ho =>
        rcases FormulaDocument.mem_singles_iff.1 h with ⟨rfl, rfl⟩ | ⟨rfl, rfl⟩
        · exact .inl (.inr (.inr (.inr (.inr (.inl ⟨_, _, rfl, rfl, ho⟩)))))
        · exact .inl (.inr (.inr (.inr (.inr (.inr ⟨_, _, rfl, rfl, ho⟩)))))

theorem OperandDocument.mem_checkRow?_iff {limit depth : Nat} {operator : String}
    {make : List Operand → Formula} :
    ∀ {ds : Option (List OperandDocument)} {f : Finding},
      f ∈ Checked.presentFindings (OperandDocument.checkRow? limit depth operator make ds) ↔
        (ds = some [] ∧ f = .inField operator (.emptyOperands operator)) ∨
          ∃ xs k o p, ds = some xs ∧ xs[k]? = some o ∧
            f.path = .field operator :: .item k :: p ∧
              OperandDocument.HasDefect limit depth o p f.defect
  | none, f => by simp [OperandDocument.checkRow?, Checked.presentFindings]
  | some [], f => by
    simp [OperandDocument.checkRow?, Checked.presentFindings, Checked.fail, Checked.findings]
  | some (d :: ds), f => by
    show f ∈ (make <$> (OperandDocument.checkAll limit depth 0 (d :: ds)).within
      [.field operator]).findings ↔ _
    rw [Checked.findings_map, Checked.mem_findings_within_iff fun g =>
      OperandDocument.mem_checkAll_iff]
    constructor
    · rintro ⟨_, hpath, k, o, p, hk, rfl, ho⟩
      rw [Nat.zero_add] at hpath
      exact .inr ⟨_, k, o, p, rfl, hk, hpath, ho⟩
    · rintro (⟨h, _⟩ | ⟨_, k, o, p, h, hk, hpath, ho⟩)
      · cases h
      · cases h
        exact ⟨_, hpath, k, o, p, hk, by rw [Nat.zero_add], ho⟩

theorem OperandDocument.mem_checkSingle?_iff {limit depth : Nat} {operator : String}
    {make : Operand → Formula} :
    ∀ {d : Option OperandDocument} {f : Finding},
      f ∈ Checked.presentFindings (OperandDocument.checkSingle? limit depth operator make d) ↔
        ∃ o p, d = some o ∧ f.path = .field operator :: p ∧
          OperandDocument.HasDefect limit depth o p f.defect
  | none, f => by simp [OperandDocument.checkSingle?, Checked.presentFindings]
  | some d, f => by
    show f ∈ (make <$> (d.check limit depth).within [.field operator]).findings ↔ _
    rw [Checked.findings_map, Checked.mem_findings_within_iff fun g =>
      OperandDocument.mem_check_iff]
    constructor
    · rintro ⟨p, hpath, hd⟩
      exact ⟨d, p, rfl, hpath, hd⟩
    · rintro ⟨_, p, ⟨⟩, hpath, hd⟩
      exact ⟨p, hpath, hd⟩

theorem DifferenceDocument.mem_check?_iff {limit depth : Nat} :
    ∀ {d : Option DifferenceDocument} {f : Finding},
      f ∈ Checked.presentFindings (DifferenceDocument.check? limit depth d) ↔
        ∃ s, d = some s ∧
          ((∃ side, (side, none) ∈ s.sides ∧
            f = ⟨[.field "sub", .field side], .missingOperand side⟩) ∨
            ∃ side o p, (side, some o) ∈ s.sides ∧ f.path = .field "sub" :: .field side :: p ∧
              OperandDocument.HasDefect limit depth o p f.defect)
  | none, f => by simp [DifferenceDocument.check?, Checked.presentFindings]
  | some ⟨minuend, subtrahend⟩, f => by
    show f ∈ ((Formula.sub <$> OperandDocument.checkRequired limit depth "minuend" minuend
      <*> OperandDocument.checkRequired limit depth "subtrahend" subtrahend).within
        [.field "sub"]).findings ↔ _
    rw [Checked.mem_findings_within]
    simp only [Checked.findings_seq, Checked.findings_map, List.mem_append,
      OperandDocument.mem_checkRequired_iff]
    have hwithin : ∀ {g : Finding} {side p}, g.path = .field side :: p →
        (g.within [.field "sub"]).path = .field "sub" :: .field side :: p :=
      fun hp => congrArg (List.cons (PathStep.field "sub")) hp
    constructor
    · rintro ⟨g, (⟨rfl, rfl⟩ | ⟨o, p, rfl, hp, ho⟩) | (⟨rfl, rfl⟩ | ⟨o, p, rfl, hp, ho⟩), rfl⟩
      · exact ⟨_, rfl, .inl ⟨"minuend", by simp [DifferenceDocument.sides], rfl⟩⟩
      · exact ⟨_, rfl, .inr ⟨"minuend", o, p, by simp [DifferenceDocument.sides], hwithin hp, ho⟩⟩
      · exact ⟨_, rfl, .inl ⟨"subtrahend", by simp [DifferenceDocument.sides], rfl⟩⟩
      · exact ⟨_, rfl,
          .inr ⟨"subtrahend", o, p, by simp [DifferenceDocument.sides], hwithin hp, ho⟩⟩
    · obtain ⟨path, defect⟩ := f
      rintro ⟨s, ⟨⟩, ⟨side, hside, h⟩ | ⟨side, o, p, hside, rfl, ho⟩⟩
      · cases h
        rcases DifferenceDocument.mem_sides_iff.1 hside with ⟨rfl, h⟩ | ⟨rfl, h⟩
        · exact ⟨.inField "minuend" (.missingOperand "minuend"), .inl (.inl ⟨h.symm, rfl⟩), rfl⟩
        · exact ⟨.inField "subtrahend" (.missingOperand "subtrahend"), .inr (.inl ⟨h.symm, rfl⟩), rfl⟩
      · rcases DifferenceDocument.mem_sides_iff.1 hside with ⟨rfl, h⟩ | ⟨rfl, h⟩
        · exact ⟨⟨.field "minuend" :: p, defect⟩, .inl (.inr ⟨o, p, h.symm, rfl, ho⟩), rfl⟩
        · exact ⟨⟨.field "subtrahend" :: p, defect⟩, .inr (.inr ⟨o, p, h.symm, rfl, ho⟩), rfl⟩

theorem OperandDocument.mem_checkRequired_iff {limit depth : Nat} {side : String} :
    ∀ {d : Option OperandDocument} {f : Finding},
      f ∈ (OperandDocument.checkRequired limit depth side d).findings ↔
        (d = none ∧ f = .inField side (.missingOperand side)) ∨
          ∃ o p, d = some o ∧ f.path = .field side :: p ∧
            OperandDocument.HasDefect limit depth o p f.defect
  | none, f => by simp [OperandDocument.checkRequired, Checked.fail, Checked.findings]
  | some d, f => by
    rw [OperandDocument.checkRequired, Checked.mem_findings_within_iff fun g =>
      OperandDocument.mem_check_iff]
    constructor
    · rintro ⟨p, hpath, hd⟩
      exact .inr ⟨d, p, rfl, hpath, hd⟩
    · rintro (⟨h, _⟩ | ⟨_, p, h, hpath, hd⟩)
      · cases h
      · cases h
        exact ⟨p, hpath, hd⟩

theorem OperandDocument.mem_checkAll_iff {limit depth : Nat} :
    ∀ {index : Nat} {ds : List OperandDocument} {f : Finding},
      f ∈ (OperandDocument.checkAll limit depth index ds).findings ↔
        OperandDocument.RowHasDefect limit depth index ds f.path f.defect
  | index, [], f => by
    simp [OperandDocument.checkAll, Checked.findings, OperandDocument.RowHasDefect]
  | index, d :: ds, f => by
    rw [OperandDocument.checkAll, Checked.findings_seq, Checked.findings_map, List.mem_append,
      Checked.mem_findings_within_iff fun g => OperandDocument.mem_check_iff,
      OperandDocument.mem_checkAll_iff]
    constructor
    · rintro (⟨p, hpath, hd⟩ | ⟨k, o, p, hk, hpath, ho⟩)
      · exact ⟨0, d, p, rfl, hpath, hd⟩
      · rw [Nat.add_assoc, Nat.add_comm 1] at hpath
        exact ⟨k + 1, o, p, hk, hpath, ho⟩
    · rintro ⟨_ | k, o, p, hk, hpath, ho⟩
      · cases hk
        exact .inl ⟨p, hpath, ho⟩
      · rw [← Nat.add_comm 1, ← Nat.add_assoc] at hpath
        exact .inr ⟨k, o, p, hk, hpath, ho⟩

/-- The check of an operand finds its defects, each at its place. -/
theorem OperandDocument.mem_check_iff {limit depth : Nat} :
    ∀ {o : OperandDocument} {f : Finding},
      f ∈ (o.check limit depth).findings ↔ o.HasDefect limit depth f.path f.defect
  | ⟨meter, constant, formulaVariable, nested⟩, ⟨path, defect⟩ => by
    have hmeter : ⟨path, defect⟩ ∈ Checked.presentFindings (meter.map fun m =>
        (Operand.meter <$> m.check).within [.field "meloOperand"]) ↔
          ∃ m, meter = some m ∧ ∃ p, path = .field "meloOperand" :: p ∧ m.HasDefect p defect := by
      rw [Checked.mem_presentFindings_map]
      refine exists_congr fun m => and_congr_right fun _ => ?_
      refine Checked.mem_findings_within_iff fun g => ?_
      rw [Checked.findings_map, MeterDocument.mem_check_iff]
    simp only [OperandDocument.findings_check, List.mem_append, mem_unless_single, hmeter,
      OperandDocument.mem_malformed_iff, FormulaDocument.mem_checkNested?_iff]
    constructor
    · rintro ((⟨m, rfl, p, rfl, hm⟩ | ⟨v, e, rfl, he, h⟩ | ⟨s, e, rfl, he, h⟩ |
        ⟨d, p, rfl, rfl, hd⟩) | ⟨hne, h⟩)
      · exact .meter rfl hm
      · cases h
        exact .constant rfl he
      · cases h
        exact .formulaVariable rfl he
      · exact .nested rfl hd
      · cases h
        exact .union hne
    · intro h
      cases h with
      | union hne => exact .inr ⟨hne, rfl⟩
      | meter hm hp => exact .inl (.inl ⟨_, hm, _, rfl, hp⟩)
      | constant hv he => exact .inl (.inr (.inl ⟨_, _, hv, he, rfl⟩))
      | formulaVariable hs he => exact .inl (.inr (.inr (.inl ⟨_, _, hs, he, rfl⟩)))
      | nested hd hp => exact .inl (.inr (.inr (.inr ⟨_, _, hd, rfl, hp⟩)))

theorem FormulaDocument.mem_checkNested?_iff {limit depth : Nat} :
    ∀ {d : Option FormulaDocument} {f : Finding},
      f ∈ Checked.presentFindings (FormulaDocument.checkNested? limit depth d) ↔
        ∃ g p, d = some g ∧ f.path = .field "calculationFormula" :: p ∧
          FormulaDocument.HasDefect limit (depth + 1) g p f.defect
  | none, f => by simp [FormulaDocument.checkNested?, Checked.presentFindings]
  | some d, f => by
    have hcheck : ∀ g, g ∈ (Operand.nested <$> d.check limit (depth + 1)).findings ↔
        d.HasDefect limit (depth + 1) g.path g.defect := by
      intro g
      rw [Checked.findings_map, FormulaDocument.mem_check_iff]
    show f ∈ ((Operand.nested <$> d.check limit (depth + 1)).within
      [.field "calculationFormula"]).findings ↔ _
    rw [Checked.mem_findings_within_iff hcheck]
    constructor
    · rintro ⟨p, hpath, hd⟩
      exact ⟨d, p, rfl, hpath, hd⟩
    · rintro ⟨_, p, ⟨⟩, hpath, hd⟩
      exact ⟨p, hpath, hd⟩

end

end EnergyFormula
