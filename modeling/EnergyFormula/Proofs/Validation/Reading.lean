import EnergyFormula.Proofs.Formula.Part
import EnergyFormula.Validation.Formula

/-!
# What formula documents stand for

`FormulaDocument.Reads` says which formula a document stands for, apart from all checks and limits:
exactly one operator is present, it has operands, and each of these is read in turn.  A check passes
exactly if the document is read and the formula is not too deep
(`FormulaDocument.check_eq_valid_iff`).
-/

namespace EnergyFormula

/-! ### Values that pass a check -/

namespace Checked

variable {α β : Type}

theorem map_eq_valid_iff {f : α → β} {x : Checked α} {b : β} :
    f <$> x = valid b ↔ ∃ a, x = valid a ∧ f a = b := by
  cases x with
  | valid a => simp [Functor.map, apply]
  | invalid first others => simp [Functor.map, apply]

theorem seq_eq_valid_iff {f : Checked (α → β)} {x : Checked α} {b : β} :
    f <*> x = valid b ↔ ∃ g a, f = valid g ∧ x = valid a ∧ g a = b := by
  cases f with
  | valid g => cases x <;> simp [Seq.seq, apply]
  | invalid first others => simp [Seq.seq, apply]

theorem within_eq_valid_iff {steps : Path} {x : Checked α} {a : α} :
    x.within steps = valid a ↔ x = valid a := by
  cases x <;> simp [within]

theorem fail_ne_valid {finding : Finding} {a : α} : fail finding ≠ valid a :=
  nofun

theorem andThen_eq_valid_iff {x : Checked α} {check : α → Checked β} {b : β} :
    x.andThen check = valid b ↔ ∃ a, x = valid a ∧ check a = valid b := by
  cases x <;> simp [andThen]

theorem ofExcept_eq_valid_iff {ε : Type} {defect : ε → Defect} {x : Except ε α} {a : α} :
    ofExcept defect x = valid a ↔ x = .ok a := by
  cases x <;> simp [ofExcept, fail]

theorem failAfter_ne_valid {before : List Finding} {last : Finding} {a : α} :
    failAfter before last ≠ valid a := by
  cases before <;> exact nofun

/-- Of several alternatives, one passes if it passes its check and is the only one. -/
theorem only_eq_valid_iff {alternatives : List (Checked α)} {ambiguous : Finding} {a : α} :
    only alternatives ambiguous = valid a ↔ alternatives = [valid a] := by
  constructor
  · intro h
    unfold only at h
    split at h
    · rw [h]
    · exact absurd h failAfter_ne_valid
  · rintro rfl
    rfl

theorem presentChecks_eq_nil_iff {alternatives : List (Option (Checked α))} :
    presentChecks alternatives = [] ↔ ∀ x ∈ alternatives, x = none :=
  List.filterMap_eq_nil_iff

theorem presentChecks_cons_eq_singleton_iff {x : Option (Checked α)}
    {alternatives : List (Option (Checked α))} {c : Checked α} :
    presentChecks (x :: alternatives) = [c] ↔
      (x = some c ∧ ∀ y ∈ alternatives, y = none) ∨
        x = none ∧ presentChecks alternatives = [c] := by
  rw [← presentChecks_eq_nil_iff]
  cases x with
  | none => simp [presentChecks]
  | some y => simp [presentChecks]

theorem presentChecks_nil_ne_singleton {c : Checked α} : presentChecks [] ≠ [c] :=
  nofun

/-- All that the check finds are defects of one kind. -/
def FindsOnly (P : Defect → Prop) (x : Checked α) : Prop :=
  ∀ f ∈ x.findings, P f.defect

section FindsOnly

variable {P : Defect → Prop}

theorem findsOnly_valid (a : α) : (valid a).FindsOnly P :=
  List.forall_mem_nil _

theorem findsOnly_fail {f : Finding} (h : P f.defect) : (fail f : Checked α).FindsOnly P :=
  List.forall_mem_singleton.2 h

theorem FindsOnly.map {x : Checked α} (h : x.FindsOnly P) (f : α → β) : (f <$> x).FindsOnly P := by
  rw [FindsOnly, findings_map]
  exact h

theorem FindsOnly.seq {f : Checked (α → β)} {x : Checked α} (hf : f.FindsOnly P)
    (hx : x.FindsOnly P) : (f <*> x).FindsOnly P := by
  rw [FindsOnly, findings_seq]
  exact List.forall_mem_append.2 ⟨hf, hx⟩

theorem FindsOnly.within {x : Checked α} (h : x.FindsOnly P) (steps : Path) :
    (x.within steps).FindsOnly P := by
  rw [FindsOnly, findings_within]
  exact List.forall_mem_map.2 h

theorem FindsOnly.andThen {x : Checked α} {check : α → Checked β} (h : x.FindsOnly P)
    (hcheck : ∀ a, (check a).FindsOnly P) : (x.andThen check).FindsOnly P := by
  cases x with
  | valid a => exact hcheck a
  | invalid first others => exact h

end FindsOnly

end Checked

/-! ### Readings -/

/-- The share that a field stands for; `absent` where the field or its value is absent. -/
def PercentDocument.Reads (absent : Percent) (d : Option PercentDocument) (p : Percent) : Prop :=
  match d.bind PercentDocument.value with
  | some v => Percent.ofJson v = .ok p
  | none => p = absent

/-- The metered quantity that a document stands for. -/
structure MeterDocument.Reads (d : MeterDocument) (m : MeterOperand) : Prop where
  meter : d.meter = some m.meter.text
  direction : match d.direction with
    | some s => EnergyDirection.ofText? s = some m.direction
    | none => m.direction = .consumption
  transformerLoss : PercentDocument.Reads .zero d.transformerLoss m.transformerLoss
  conductionLoss : PercentDocument.Reads .zero d.conductionLoss m.conductionLoss
  distribution : PercentDocument.Reads .one d.distribution m.distribution

mutual

/-- The document stands for the formula. -/
inductive FormulaDocument.Reads : FormulaDocument → Formula → Prop
  | add {ds : List OperandDocument} {ops : List Operand} :
    OperandDocument.AllRead ds ops → ops ≠ [] →
      FormulaDocument.Reads ⟨some ds, none, none, none, none, none⟩ (.add ops)
  | sub {a b : OperandDocument} {x y : Operand} :
    a.Reads x → b.Reads y →
      FormulaDocument.Reads ⟨none, some ⟨some a, some b⟩, none, none, none, none⟩ (.sub x y)
  | mul {ds : List OperandDocument} {ops : List Operand} :
    OperandDocument.AllRead ds ops → ops ≠ [] →
      FormulaDocument.Reads ⟨none, none, some ds, none, none, none⟩ (.mul ops)
  | div {ds : List OperandDocument} {ops : List Operand} :
    OperandDocument.AllRead ds ops → ops ≠ [] →
      FormulaDocument.Reads ⟨none, none, none, some ds, none, none⟩ (.div ops)
  | pos {d : OperandDocument} {op : Operand} :
    d.Reads op → FormulaDocument.Reads ⟨none, none, none, none, some d, none⟩ (.pos op)
  | operand {d : OperandDocument} {op : Operand} :
    d.Reads op → FormulaDocument.Reads ⟨none, none, none, none, none, some d⟩ (.operand op)

/-- The document stands for the operand. -/
inductive OperandDocument.Reads : OperandDocument → Operand → Prop
  | meter {d : MeterDocument} {m : MeterOperand} :
    d.Reads m → OperandDocument.Reads ⟨some d, none, none, none⟩ (.meter m)
  | constant {v : Json} {c : ConstLiteral} :
    ConstLiteral.ofJson v = .ok c → OperandDocument.Reads ⟨none, some v, none, none⟩ (.constant c)
  | formulaVariable (v : FormulaVariable) :
    OperandDocument.Reads ⟨none, none, some v.text, none⟩ (.variable v)
  | nested {d : FormulaDocument} {f : Formula} :
    d.Reads f → OperandDocument.Reads ⟨none, none, none, some d⟩ (.nested f)

/-- The documents stand for the operands, one by one. -/
inductive OperandDocument.AllRead : List OperandDocument → List Operand → Prop
  | nil : OperandDocument.AllRead [] []
  | cons {d : OperandDocument} {op : Operand} {ds : List OperandDocument} {ops : List Operand} :
    d.Reads op → OperandDocument.AllRead ds ops → OperandDocument.AllRead (d :: ds) (op :: ops)

end

/-! ### Metered quantities -/

theorem PercentDocument.check_eq_valid_iff {absent : Percent} {field : String}
    {d : Option PercentDocument} {p : Percent} :
    PercentDocument.check absent field d = .valid p ↔ PercentDocument.Reads absent d p := by
  unfold PercentDocument.check PercentDocument.Reads
  cases d.bind PercentDocument.value with
  | none => simp [eq_comm]
  | some v => simp only [Checked.within_eq_valid_iff, Checked.ofExcept_eq_valid_iff]

theorem MeterDocument.checkMeter_eq_valid_iff {d : MeterDocument} {id : MeterLocationId} :
    d.checkMeter = .valid id ↔ d.meter = some id.text := by
  unfold MeterDocument.checkMeter
  cases d.meter with
  | none => simp [Checked.within_eq_valid_iff, Checked.fail_ne_valid]
  | some s =>
    simp only [Checked.within_eq_valid_iff, Checked.ofExcept_eq_valid_iff,
      Identifier.parse_eq_ok_iff, Option.some.injEq]
    exact eq_comm

theorem MeterDocument.checkDirection_eq_valid_iff {d : MeterDocument} {e : EnergyDirection} :
    d.checkDirection = .valid e ↔
      match d.direction with
      | some s => EnergyDirection.ofText? s = some e
      | none => e = .consumption := by
  unfold MeterDocument.checkDirection
  cases d.direction with
  | none => simp [eq_comm]
  | some s =>
    cases h : EnergyDirection.ofText? s with
    | none => simp [h, Checked.fail_ne_valid]
    | some e => simp [h]

theorem MeterDocument.check_eq_valid_iff {d : MeterDocument} {m : MeterOperand} :
    d.check = .valid m ↔ d.Reads m := by
  simp only [MeterDocument.check, Checked.seq_eq_valid_iff, Checked.map_eq_valid_iff,
    checkMeter_eq_valid_iff, checkDirection_eq_valid_iff, PercentDocument.check_eq_valid_iff]
  constructor
  · rintro ⟨_, p, ⟨_, q, ⟨_, r, ⟨_, e, ⟨id, hid, rfl⟩, he, rfl⟩, hr, rfl⟩, hq, rfl⟩, hp, rfl⟩
    exact ⟨hid, he, hr, hq, hp⟩
  · rintro ⟨hid, he, hr, hq, hp⟩
    exact ⟨_, _, ⟨_, _, ⟨_, _, ⟨_, _, ⟨_, hid, rfl⟩, he, rfl⟩, hr, rfl⟩, hq, rfl⟩, hp, rfl⟩

/-! ### Formulas -/

theorem OperandDocument.checkRow?_eq_none_iff {limit depth : Nat} {operator : String}
    {make : List Operand → Formula} {ds : Option (List OperandDocument)} :
    OperandDocument.checkRow? limit depth operator make ds = none ↔ ds = none := by
  rcases ds with _ | _ | ⟨d, ds⟩ <;> simp [OperandDocument.checkRow?]

theorem OperandDocument.checkSingle?_eq_none_iff {limit depth : Nat} {operator : String}
    {make : Operand → Formula} {d : Option OperandDocument} :
    OperandDocument.checkSingle? limit depth operator make d = none ↔ d = none := by
  cases d <;> simp [OperandDocument.checkSingle?]

theorem DifferenceDocument.check?_eq_none_iff {limit depth : Nat}
    {d : Option DifferenceDocument} :
    DifferenceDocument.check? limit depth d = none ↔ d = none := by
  rcases d with _ | ⟨_, _⟩ <;> simp [DifferenceDocument.check?]

theorem FormulaDocument.checkNested?_eq_none_iff {limit depth : Nat}
    {d : Option FormulaDocument} :
    FormulaDocument.checkNested? limit depth d = none ↔ d = none := by
  cases d <;> simp [FormulaDocument.checkNested?]

-- By recursion over the document.  Operands are checked at the depth of their formula, and a nested
-- formula at one more.
mutual

/-- A formula passes its check exactly if it is read and not too deep. -/
theorem FormulaDocument.check_eq_valid_iff {limit : Nat} :
    ∀ {depth : Nat} {d : FormulaDocument} {f : Formula},
      d.check limit depth = .valid f ↔ d.Reads f ∧ depth + f.depth ≤ limit + 1
  | depth, ⟨add, sub, mul, div, pos, operand⟩, f => by
    rw [FormulaDocument.check]
    split
    · rename_i hlimit
      -- beyond the limit nothing passes, and no formula has the depth zero
      refine iff_of_false Checked.fail_ne_valid fun h => ?_
      have := f.depth_eq
      omega
    rename_i hlimit
    have hdepth : depth ≤ limit := Nat.le_of_not_lt hlimit
    simp only [Checked.only_eq_valid_iff, Checked.presentChecks_cons_eq_singleton_iff,
      Checked.presentChecks_nil_ne_singleton, List.forall_mem_cons, List.not_mem_nil,
      false_implies, implies_true, and_true, and_false, or_false,
      OperandDocument.checkRow?_eq_none_iff, OperandDocument.checkRow?_eq_some_iff hdepth,
      OperandDocument.checkSingle?_eq_none_iff, OperandDocument.checkSingle?_eq_some_iff hdepth,
      DifferenceDocument.check?_eq_none_iff, DifferenceDocument.check?_eq_some_iff hdepth]
    have hle {n : Nat} : depth + (1 + n) ≤ limit + 1 ↔ depth + n ≤ limit := by omega
    constructor
    · -- one operator is present and passes, and the others are absent
      rintro (⟨⟨_, ops, rfl, hds, hne, hops, rfl⟩, rfl, rfl, rfl, rfl, rfl⟩ | ⟨rfl, h⟩)
      · exact ⟨.add hds hne, hle.2 hops⟩
      rcases h with ⟨⟨_, _, x, y, rfl, ha, hb, hxy, rfl⟩, rfl, rfl, rfl, rfl⟩ | ⟨rfl, h⟩
      · exact ⟨.sub ha hb, hle.2 hxy⟩
      rcases h with ⟨⟨_, ops, rfl, hds, hne, hops, rfl⟩, rfl, rfl, rfl⟩ | ⟨rfl, h⟩
      · exact ⟨.mul hds hne, hle.2 hops⟩
      rcases h with ⟨⟨_, ops, rfl, hds, hne, hops, rfl⟩, rfl, rfl⟩ | ⟨rfl, h⟩
      · exact ⟨.div hds hne, hle.2 hops⟩
      rcases h with ⟨⟨_, op, rfl, hd, hop, rfl⟩, rfl⟩ | ⟨rfl, _, op, rfl, hd, hop, rfl⟩
      · exact ⟨.pos hd, hle.2 hop⟩
      · exact ⟨.operand hd, hle.2 hop⟩
    · -- each rule fills the field of its operator only
      rintro ⟨⟨hds, hne⟩ | ⟨ha, hb⟩ | ⟨hds, hne⟩ | ⟨hds, hne⟩ | hd | hd, hf⟩
      · exact .inl ⟨⟨_, _, rfl, hds, hne, hle.1 hf, rfl⟩, rfl, rfl, rfl, rfl, rfl⟩
      · exact .inr ⟨rfl, .inl ⟨⟨_, _, _, _, rfl, ha, hb, hle.1 hf, rfl⟩, rfl, rfl, rfl, rfl⟩⟩
      · exact .inr ⟨rfl, .inr ⟨rfl, .inl ⟨⟨_, _, rfl, hds, hne, hle.1 hf, rfl⟩, rfl, rfl, rfl⟩⟩⟩
      · exact .inr ⟨rfl, .inr ⟨rfl, .inr ⟨rfl, .inl ⟨⟨_, _, rfl, hds, hne, hle.1 hf, rfl⟩,
          rfl, rfl⟩⟩⟩⟩
      · exact .inr ⟨rfl, .inr ⟨rfl, .inr ⟨rfl, .inr ⟨rfl, .inl ⟨⟨_, _, rfl, hd, hle.1 hf, rfl⟩,
          rfl⟩⟩⟩⟩⟩
      · exact .inr ⟨rfl, .inr ⟨rfl, .inr ⟨rfl, .inr ⟨rfl, .inr ⟨rfl, _, _, rfl, hd, hle.1 hf,
          rfl⟩⟩⟩⟩⟩

theorem OperandDocument.checkRow?_eq_some_iff {limit depth : Nat} (hdepth : depth ≤ limit)
    {operator : String} {make : List Operand → Formula} {f : Formula} :
    ∀ {o : Option (List OperandDocument)},
      OperandDocument.checkRow? limit depth operator make o = some (.valid f) ↔
        ∃ ds ops, o = some ds ∧ OperandDocument.AllRead ds ops ∧ ops ≠ [] ∧
          depth + Operand.maxDepth ops ≤ limit ∧ f = make ops
  | none => by simp [OperandDocument.checkRow?]
  | some [] => by
    -- a row without operands fails, and no formula is read from it
    constructor
    · intro h
      exact absurd (Option.some.inj h) Checked.fail_ne_valid
    · rintro ⟨_, ops, ⟨⟩, ⟨⟩, hne, _⟩
      exact absurd rfl hne
  | some (d :: ds) => by
    have hall := @OperandDocument.checkAll_eq_valid_iff limit depth hdepth 0 (d :: ds)
    simp only [OperandDocument.checkRow?, Option.some.injEq, Checked.map_eq_valid_iff,
      Checked.within_eq_valid_iff, hall]
    constructor
    · rintro ⟨ops, ⟨hds, hops⟩, rfl⟩
      refine ⟨_, ops, rfl, hds, ?_, hops, rfl⟩
      rintro rfl
      cases hds
    · rintro ⟨_, ops, rfl, hds, _, hops, rfl⟩
      exact ⟨ops, ⟨hds, hops⟩, rfl⟩

theorem OperandDocument.checkSingle?_eq_some_iff {limit depth : Nat} (hdepth : depth ≤ limit)
    {operator : String} {make : Operand → Formula} {f : Formula} :
    ∀ {o : Option OperandDocument},
      OperandDocument.checkSingle? limit depth operator make o = some (.valid f) ↔
        ∃ d op, o = some d ∧ d.Reads op ∧ depth + op.depth ≤ limit ∧ f = make op
  | none => by simp [OperandDocument.checkSingle?]
  | some d => by
    simp only [OperandDocument.checkSingle?, Option.some.injEq, Checked.map_eq_valid_iff,
      Checked.within_eq_valid_iff, d.check_eq_valid_iff hdepth]
    constructor
    · rintro ⟨op, ⟨hd, hop⟩, rfl⟩
      exact ⟨d, op, rfl, hd, hop, rfl⟩
    · rintro ⟨_, op, rfl, hd, hop, rfl⟩
      exact ⟨op, ⟨hd, hop⟩, rfl⟩

theorem DifferenceDocument.check?_eq_some_iff {limit depth : Nat} (hdepth : depth ≤ limit)
    {f : Formula} :
    ∀ {o : Option DifferenceDocument},
      DifferenceDocument.check? limit depth o = some (.valid f) ↔
        ∃ a b x y, o = some ⟨some a, some b⟩ ∧ a.Reads x ∧ b.Reads y ∧
          depth + max x.depth y.depth ≤ limit ∧ f = .sub x y
  | none => by simp [DifferenceDocument.check?]
  | some ⟨minuend, subtrahend⟩ => by
    simp only [DifferenceDocument.check?, Option.some.injEq, Checked.within_eq_valid_iff,
      Checked.seq_eq_valid_iff, Checked.map_eq_valid_iff,
      OperandDocument.checkRequired_eq_valid_iff hdepth]
    constructor
    · rintro ⟨_, y, ⟨x, ⟨a, rfl, ha, hx⟩, rfl⟩, ⟨b, rfl, hb, hy⟩, rfl⟩
      exact ⟨a, b, x, y, rfl, ha, hb, by omega, rfl⟩
    · rintro ⟨a, b, x, y, h, ha, hb, hxy, rfl⟩
      cases h
      exact ⟨_, y, ⟨x, ⟨a, rfl, ha, by omega⟩, rfl⟩, ⟨b, rfl, hb, by omega⟩, rfl⟩

theorem OperandDocument.checkRequired_eq_valid_iff {limit depth : Nat} (hdepth : depth ≤ limit)
    {field : String} {op : Operand} :
    ∀ {o : Option OperandDocument},
      OperandDocument.checkRequired limit depth field o = .valid op ↔
        ∃ d, o = some d ∧ d.Reads op ∧ depth + op.depth ≤ limit
  | none => by simp [OperandDocument.checkRequired, Checked.fail_ne_valid]
  | some d => by
    rw [OperandDocument.checkRequired, Checked.within_eq_valid_iff, d.check_eq_valid_iff hdepth]
    simp

theorem OperandDocument.checkAll_eq_valid_iff {limit depth : Nat} (hdepth : depth ≤ limit) :
    ∀ {index : Nat} {ds : List OperandDocument} {ops : List Operand},
      OperandDocument.checkAll limit depth index ds = .valid ops ↔
        OperandDocument.AllRead ds ops ∧ depth + Operand.maxDepth ops ≤ limit
  | _, [], ops => by
    constructor
    · rintro ⟨⟩
      exact ⟨.nil, hdepth⟩
    · rintro ⟨⟨⟩, _⟩
      rfl
  | index, d :: ds, ops => by
    simp only [OperandDocument.checkAll, Checked.seq_eq_valid_iff, Checked.map_eq_valid_iff,
      Checked.within_eq_valid_iff, d.check_eq_valid_iff hdepth,
      OperandDocument.checkAll_eq_valid_iff hdepth]
    constructor
    · rintro ⟨_, rest, ⟨op, ⟨hd, hop⟩, rfl⟩, ⟨hds, hrest⟩, rfl⟩
      refine ⟨.cons hd hds, ?_⟩
      rw [Operand.maxDepth]
      omega
    · rintro ⟨_ | ⟨hd, hds⟩, hops⟩
      rw [Operand.maxDepth] at hops
      exact ⟨_, _, ⟨_, ⟨hd, by omega⟩, rfl⟩, ⟨hds, by omega⟩, rfl⟩

theorem OperandDocument.check_eq_valid_iff {limit depth : Nat} (hdepth : depth ≤ limit) :
    ∀ {d : OperandDocument} {op : Operand},
      d.check limit depth = .valid op ↔ d.Reads op ∧ depth + op.depth ≤ limit
  | ⟨meter, constant, formulaVariable, nested⟩, op => by
    simp only [OperandDocument.check, Checked.only_eq_valid_iff,
      Checked.presentChecks_cons_eq_singleton_iff, Checked.presentChecks_nil_ne_singleton,
      List.forall_mem_cons, List.not_mem_nil, false_implies, implies_true, and_true, and_false,
      or_false, Option.map_eq_none_iff, Option.map_eq_some_iff, Checked.within_eq_valid_iff,
      Checked.map_eq_valid_iff, Checked.ofExcept_eq_valid_iff, Identifier.parse_eq_ok_iff,
      MeterDocument.check_eq_valid_iff, FormulaDocument.checkNested?_eq_none_iff,
      FormulaDocument.checkNested?_eq_some_iff]
    constructor
    · -- one variant is present and passes, and the others are absent
      rintro (⟨⟨_, rfl, m, hm, rfl⟩, rfl, rfl, rfl⟩ | ⟨rfl, h⟩)
      · exact ⟨.meter hm, hdepth⟩
      rcases h with ⟨⟨_, rfl, c, hc, rfl⟩, rfl, rfl⟩ | ⟨rfl, h⟩
      · exact ⟨.constant hc, hdepth⟩
      rcases h with ⟨⟨_, rfl, v, rfl, rfl⟩, rfl⟩ | ⟨rfl, _, f, rfl, hd, hf, rfl⟩
      · exact ⟨.formulaVariable v, hdepth⟩
      · exact ⟨.nested hd, hf⟩
    · rintro ⟨hm | hc | v | hd, hop⟩
      · exact .inl ⟨⟨_, rfl, _, hm, rfl⟩, rfl, rfl, rfl⟩
      · exact .inr ⟨rfl, .inl ⟨⟨_, rfl, _, hc, rfl⟩, rfl, rfl⟩⟩
      · exact .inr ⟨rfl, .inr ⟨rfl, .inl ⟨⟨_, rfl, v, rfl, rfl⟩, rfl⟩⟩⟩
      · exact .inr ⟨rfl, .inr ⟨rfl, .inr ⟨rfl, _, _, rfl, hd, hop, rfl⟩⟩⟩

theorem FormulaDocument.checkNested?_eq_some_iff {limit depth : Nat} {op : Operand} :
    ∀ {o : Option FormulaDocument},
      FormulaDocument.checkNested? limit depth o = some (.valid op) ↔
        ∃ d f, o = some d ∧ d.Reads f ∧ depth + f.depth ≤ limit ∧ op = .nested f
  | none => by simp [FormulaDocument.checkNested?]
  | some d => by
    simp only [FormulaDocument.checkNested?, Option.some.injEq, Checked.within_eq_valid_iff,
      Checked.map_eq_valid_iff, d.check_eq_valid_iff]
    constructor
    · rintro ⟨f, ⟨hd, hf⟩, rfl⟩
      exact ⟨d, f, rfl, hd, by omega, rfl⟩
    · rintro ⟨_, f, rfl, hd, hf, rfl⟩
      exact ⟨f, ⟨hd, by omega⟩, rfl⟩

end

/-- The formula of a document passes if the document is read and the formula within the limit. -/
theorem FormulaDocument.validate_eq_valid_iff {maxDepth : Nat} {d : FormulaDocument}
    {f : Formula} : d.validate maxDepth = .valid f ↔ d.Reads f ∧ f.depth ≤ maxDepth := by
  rw [FormulaDocument.validate, Checked.within_eq_valid_iff, d.check_eq_valid_iff,
    Nat.add_comm 1, Nat.add_le_add_iff_right]

/-! ### What is read is well-formed -/

theorem OperandDocument.AllRead.exists_reads :
    ∀ {ds : List OperandDocument} {ops : List Operand}, OperandDocument.AllRead ds ops →
      ∀ {op : Operand}, op ∈ ops → ∃ d : OperandDocument, d.Reads op
  | _, _, .cons (d := d) hd hds, op, hop => by
    rcases List.mem_cons.1 hop with rfl | hmem
    · exact ⟨d, hd⟩
    · exact hds.exists_reads hmem

/-- The operands of a formula that a document stands for are read from documents too. -/
theorem FormulaDocument.Reads.exists_reads {d : FormulaDocument} {f : Formula} (h : d.Reads f)
    {op : Operand} (hop : op ∈ f.operands) : ∃ a : OperandDocument, a.Reads op := by
  cases h with
  | add hds _ => exact hds.exists_reads hop
  | mul hds _ => exact hds.exists_reads hop
  | div hds _ => exact hds.exists_reads hop
  | sub ha hb =>
    rcases List.mem_cons.1 hop with rfl | hop
    · exact ⟨_, ha⟩
    · rw [List.mem_singleton.1 hop]
      exact ⟨_, hb⟩
  | pos hd =>
    rw [List.mem_singleton.1 hop]
    exact ⟨_, hd⟩
  | operand hd =>
    rw [List.mem_singleton.1 hop]
    exact ⟨_, hd⟩

theorem FormulaDocument.Reads.operands_ne_nil {d : FormulaDocument} {f : Formula}
    (h : d.Reads f) : f.operands ≠ [] := by
  cases h with
  | add _ hne => exact hne
  | mul _ hne => exact hne
  | div _ hne => exact hne
  | _ => exact List.cons_ne_nil _ _

/-- The parts of a formula that a document stands for all have an operand. -/
theorem FormulaDocument.Reads.operands_ne_nil_of_part {d : FormulaDocument} {f g : Formula}
    (h : d.Reads f) (hg : Formula.Part g f) : g.operands ≠ [] := by
  induction hg generalizing d with
  | self f => exact h.operands_ne_nil
  | nested _ hmem ih =>
    -- the formula on the way down to the part is read from a document as well
    obtain ⟨_, hop⟩ := h.exists_reads hmem
    cases hop with
    | nested hd => exact ih hd

end EnergyFormula
