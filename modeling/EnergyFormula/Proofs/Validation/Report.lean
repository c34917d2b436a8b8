import EnergyFormula.Proofs.Validation.Defects
import EnergyFormula.Proofs.Validation.Places

/-!
# The report on a formula document

No two findings of a check are at one place: the findings of each part lie behind a step of its own,
and what is found of the whole lies behind none (`FormulaDocument.apart_check`).  All names on the
way are plain, so the places are different as they are written, too.  So the report on a document
has each of its defects once, and there is a formula exactly if there is no defect
(`FormulaDocument.validate_reports`).
-/

namespace EnergyFormula

/-! ### Findings at different places -/

namespace Finding

variable {fs gs : List Finding} {P Q : PathStep → Prop}

/-- No two of the findings are at the same place. -/
def Apart (fs : List Finding) : Prop :=
  fs.Pairwise fun f g => f.path ≠ g.path

/-- Every finding is behind one of the steps. -/
def Behind (P : PathStep → Prop) (fs : List Finding) : Prop :=
  ∀ f ∈ fs, ∃ s p, f.path = s :: p ∧ P s

theorem apart_nil : Apart [] :=
  .nil

theorem apart_singleton (f : Finding) : Apart [f] :=
  List.pairwise_singleton _ f

theorem Apart.within (h : Apart fs) (steps : Path) : Apart (fs.map (Finding.within steps)) := by
  refine List.pairwise_map.2 (h.imp fun {f g} hfg heq => ?_)
  exact hfg (List.append_cancel_left heq)

/-- Findings behind different steps are at different places. -/
theorem Apart.append (hf : Apart fs) (hg : Apart gs) (hP : Behind P fs) (hQ : Behind Q gs)
    (h : ∀ s, P s → ¬ Q s) : Apart (fs ++ gs) := by
  refine List.pairwise_append.2 ⟨hf, hg, fun f hf g hg heq => ?_⟩
  obtain ⟨s, p, hs, hPs⟩ := hP f hf
  obtain ⟨t, q, ht, hQt⟩ := hQ g hg
  rw [hs, ht] at heq
  obtain ⟨rfl, _⟩ := List.cons.inj heq
  exact h s hPs hQt

/-- A group of findings behind each of several fields. -/
def Grouped (names : List String) (groups : List (List Finding)) : Prop :=
  List.Forall₂ (fun name fs => Apart fs ∧ Behind (· = .field name) fs) names groups

/-- Groups behind different fields are at different places. -/
theorem Grouped.apart {names : List String} {groups : List (List Finding)}
    (h : Grouped names groups) (hnames : names.Nodup) : Apart groups.flatten ∧
      Behind (fun s => ∃ name ∈ names, s = .field name) groups.flatten := by
  induction h with
  | nil => exact ⟨apart_nil, List.forall_mem_nil _⟩
  | @cons name fs names groups hfirst _ ih =>
    obtain ⟨hname, hrest⟩ := List.nodup_cons.1 hnames
    obtain ⟨hapart, hbehind⟩ := ih hrest
    refine ⟨hfirst.1.append hapart hfirst.2 hbehind ?_, ?_⟩
    · rintro _ rfl ⟨other, hother, h⟩
      obtain rfl := PathStep.field.inj h
      exact hname hother
    · intro f hf
      rcases List.mem_append.1 hf with hf | hf
      · obtain ⟨s, p, hs, rfl⟩ := hfirst.2 f hf
        exact ⟨_, p, hs, name, List.mem_cons_self, rfl⟩
      · obtain ⟨s, p, hs, other, hother, rfl⟩ := hbehind f hf
        exact ⟨_, p, hs, other, List.mem_cons_of_mem name hother, rfl⟩

/-- A finding of the whole is at another place than those behind its parts. -/
theorem Apart.append_here {c : Prop} [Decidable c] (h : Apart fs) (hP : Behind P fs)
    (defect : Defect) : Apart (fs ++ if c then [] else [.here defect]) := by
  split
  · rwa [List.append_nil]
  · refine List.pairwise_append.2 ⟨h, apart_singleton _, fun f hf g hg heq => ?_⟩
    obtain ⟨s, p, hs, _⟩ := hP f hf
    rw [List.mem_singleton.1 hg, hs] at heq
    cases heq

end Finding

open Finding

theorem Checked.apart_within {α : Type} {x : Checked α} (h : Apart x.findings) (steps : Path) :
    Apart (x.within steps).findings := by
  rw [findings_within]
  exact h.within steps

theorem Checked.behind_within {α : Type} (x : Checked α) (step : PathStep) (rest : Path) :
    Behind (· = step) (x.within (step :: rest)).findings := by
  intro f hf
  obtain ⟨g, _, rfl⟩ := mem_findings_within.1 hf
  exact ⟨step, rest ++ g.path, rfl, rfl⟩

theorem Checked.apart_ofExcept {α ε : Type} (defect : ε → Defect) (x : Except ε α) :
    Apart (ofExcept defect x).findings := by
  cases x with
  | ok a => exact apart_nil
  | error e => exact apart_singleton _

/-! ### The places of the findings -/

theorem PercentDocument.apart_check (absent : Percent) (field : String)
    (d : Option PercentDocument) :
    Apart (PercentDocument.check absent field d).findings ∧
      Behind (· = .field field) (PercentDocument.check absent field d).findings := by
  unfold PercentDocument.check
  split
  · exact ⟨Checked.apart_within (Checked.apart_ofExcept _ _) _, Checked.behind_within _ _ _⟩
  · exact ⟨apart_nil, List.forall_mem_nil _⟩

theorem MeterDocument.apart_check (d : MeterDocument) : Apart d.check.findings := by
  have hmeter : Apart d.checkMeter.findings ∧ Behind (· = .field "meloId") d.checkMeter.findings := by
    refine ⟨Checked.apart_within ?_ _, Checked.behind_within _ _ _⟩
    cases d.meter with
    | none => exact apart_singleton _
    | some s => exact Checked.apart_ofExcept _ _
  have hdirection : Apart d.checkDirection.findings ∧
      Behind (· = .field "energyDirection") d.checkDirection.findings := by
    refine ⟨?_, fun f hf => ?_⟩
    · unfold checkDirection
      split
      · split
        · exact apart_nil
        · exact apart_singleton _
      · exact apart_nil
    · obtain ⟨s, _, _, rfl⟩ := mem_checkDirection_iff.1 hf
      exact ⟨_, [], rfl, rfl⟩
  have hgroups : Grouped ["meloId", "energyDirection", "lossFactorTransformer",
      "lossFactorConduction", "distributionFactorEnergyQuantity"] _ :=
    .cons hmeter (.cons hdirection
      (.cons (PercentDocument.apart_check .zero "lossFactorTransformer" d.transformerLoss)
        (.cons (PercentDocument.apart_check .zero "lossFactorConduction" d.conductionLoss)
          (.cons (PercentDocument.apart_check .one "distributionFactorEnergyQuantity"
            d.distribution) .nil))))
  have hapart := (hgroups.apart (by decide)).1
  simpa [check, Checked.findings_seq, Checked.findings_map] using hapart

theorem OperandDocument.apart_malformed {α β γ : Type} (make : α → β) (field : String)
    (parse : γ → Except MalformedIdentifier α) (d : Option γ) :
    Apart (Checked.presentFindings (d.map fun v =>
        (make <$> Checked.ofExcept Defect.malformed (parse v)).within [.field field])) ∧
      Behind (· = .field field) (Checked.presentFindings (d.map fun v =>
        (make <$> Checked.ofExcept Defect.malformed (parse v)).within [.field field])) := by
  cases d with
  | none => exact ⟨apart_nil, List.forall_mem_nil _⟩
  | some v =>
    refine ⟨Checked.apart_within ?_ _, Checked.behind_within _ _ _⟩
    rw [Checked.findings_map]
    exact Checked.apart_ofExcept _ _

-- By recursion over the document, as the checks go.
mutual

/-- No two findings of a formula are at one place. -/
theorem FormulaDocument.apart_check (limit : Nat) :
    ∀ (depth : Nat) (d : FormulaDocument), Apart (d.check limit depth).findings
  | depth, ⟨add, sub, mul, div, pos, operand⟩ => by
    by_cases hlimit : limit < depth
    · rw [FormulaDocument.check, if_pos hlimit]
      exact apart_singleton _
    have hgroups : Grouped ["add", "sub", "mul", "div", "pos", "operand"] _ :=
      .cons (OperandDocument.apart_checkRow? limit depth "add" .add add)
        (.cons (DifferenceDocument.apart_check? limit depth sub)
          (.cons (OperandDocument.apart_checkRow? limit depth "mul" .mul mul)
            (.cons (OperandDocument.apart_checkRow? limit depth "div" .div div)
              (.cons (OperandDocument.apart_checkSingle? limit depth "pos" .pos pos)
                (.cons (OperandDocument.apart_checkSingle? limit depth "operand" .operand operand)
                  .nil)))))
    obtain ⟨hapart, hbehind⟩ := hgroups.apart (by decide)
    rw [FormulaDocument.findings_check (Nat.le_of_not_lt hlimit)]
    simp only [List.flatten_cons, List.flatten_nil, List.append_nil] at hapart hbehind
    exact hapart.append_here hbehind _

theorem OperandDocument.apart_checkRow? (limit depth : Nat) (operator : String)
    (make : List Operand → Formula) :
    ∀ ds : Option (List OperandDocument),
      Apart (Checked.presentFindings (OperandDocument.checkRow? limit depth operator make ds)) ∧
        Behind (· = .field operator)
          (Checked.presentFindings (OperandDocument.checkRow? limit depth operator make ds))
  | none => ⟨apart_nil, List.forall_mem_nil _⟩
  | some [] => ⟨apart_singleton _, List.forall_mem_singleton.2 ⟨_, [], rfl, rfl⟩⟩
  | some (d :: ds) => by
    show Apart (make <$> (OperandDocument.checkAll limit depth 0 (d :: ds)).within
      [.field operator]).findings ∧ Behind _ (make <$> (OperandDocument.checkAll limit depth 0
        (d :: ds)).within [.field operator]).findings
    rw [Checked.findings_map]
    exact ⟨Checked.apart_within (OperandDocument.apart_checkAll limit depth 0 (d :: ds)) _,
      Checked.behind_within _ _ _⟩

theorem OperandDocument.apart_checkSingle? (limit depth : Nat) (operator : String)
    (make : Operand → Formula) :
    ∀ d : Option OperandDocument,
      Apart (Checked.presentFindings (OperandDocument.checkSingle? limit depth operator make d)) ∧
        Behind (· = .field operator)
          (Checked.presentFindings (OperandDocument.checkSingle? limit depth operator make d))
  | none => ⟨apart_nil, List.forall_mem_nil _⟩
  | some d => by
    show Apart (make <$> (d.check limit depth).within [.field operator]).findings ∧
      Behind _ (make <$> (d.check limit depth).within [.field operator]).findings
    rw [Checked.findings_map]
    exact ⟨Checked.apart_within (OperandDocument.apart_check limit depth d) _,
      Checked.behind_within _ _ _⟩

theorem DifferenceDocument.apart_check? (limit depth : Nat) :
    ∀ d : Option DifferenceDocument,
      Apart (Checked.presentFindings (DifferenceDocument.check? limit depth d)) ∧
        Behind (· = .field "sub")
          (Checked.presentFindings (DifferenceDocument.check? limit depth d))
  | none => ⟨apart_nil, List.forall_mem_nil _⟩
  | some ⟨minuend, subtrahend⟩ => by
    have hgroups : Grouped ["minuend", "subtrahend"] _ :=
      .cons (OperandDocument.apart_checkRequired limit depth "minuend" minuend)
        (.cons (OperandDocument.apart_checkRequired limit depth "subtrahend" subtrahend) .nil)
    have hsides := (hgroups.apart (by decide)).1
    refine ⟨Checked.apart_within ?_ _, Checked.behind_within _ _ _⟩
    simpa [Checked.findings_seq, Checked.findings_map] using hsides

theorem OperandDocument.apart_checkRequired (limit depth : Nat) (side : String) :
    ∀ d : Option OperandDocument,
      Apart (OperandDocument.checkRequired limit depth side d).findings ∧
        Behind (· = .field side) (OperandDocument.checkRequired limit depth side d).findings
  | none => ⟨apart_singleton _, List.forall_mem_singleton.2 ⟨_, [], rfl, rfl⟩⟩
  | some d =>
    ⟨Checked.apart_within (OperandDocument.apart_check limit depth d) _, Checked.behind_within _ _ _⟩

theorem OperandDocument.apart_checkAll (limit depth : Nat) :
    ∀ (index : Nat) (ds : List OperandDocument),
      Apart (OperandDocument.checkAll limit depth index ds).findings
  | _, [] => apart_nil
  | index, d :: ds => by
    have hbehind : Behind (fun s => ∃ k, s = .item (index + 1 + k))
        (OperandDocument.checkAll limit depth (index + 1) ds).findings := by
      intro f hf
      obtain ⟨k, _, p, _, hpath, _⟩ := OperandDocument.mem_checkAll_iff.1 hf
      exact ⟨_, p, hpath, k, rfl⟩
    rw [OperandDocument.checkAll, Checked.findings_seq, Checked.findings_map]
    -- the first operand has its own index, all others have greater ones
    refine (Checked.apart_within (OperandDocument.apart_check limit depth d) _).append
      (OperandDocument.apart_checkAll limit depth (index + 1) ds) (Checked.behind_within _ _ _) hbehind ?_
    rintro _ rfl ⟨k, hk⟩
    have hindex := PathStep.item.inj hk
    omega

/-- No two findings of an operand are at one place. -/
theorem OperandDocument.apart_check (limit : Nat) :
    ∀ (depth : Nat) (o : OperandDocument), Apart (o.check limit depth).findings
  | depth, ⟨meter, constant, formulaVariable, nested⟩ => by
    have hmeter : Apart (Checked.presentFindings (meter.map fun m =>
          (Operand.meter <$> m.check).within [.field "meloOperand"])) ∧
        Behind (· = .field "meloOperand") (Checked.presentFindings (meter.map fun m =>
          (Operand.meter <$> m.check).within [.field "meloOperand"])) := by
      cases meter with
      | none => exact ⟨apart_nil, List.forall_mem_nil _⟩
      | some m =>
        refine ⟨Checked.apart_within ?_ _, Checked.behind_within _ _ _⟩
        rw [Checked.findings_map]
        exact m.apart_check
    have hgroups : Grouped ["meloOperand", "const", "formulaVar", "calculationFormula"] _ :=
      .cons hmeter (.cons (OperandDocument.apart_malformed Operand.constant "const"
        ConstLiteral.ofJson constant) (.cons (OperandDocument.apart_malformed Operand.variable
          "formulaVar" (Identifier.parse .formulaVariable) formulaVariable)
            (.cons (FormulaDocument.apart_checkNested? limit depth nested) .nil)))
    obtain ⟨hapart, hbehind⟩ := hgroups.apart (by decide)
    rw [OperandDocument.findings_check]
    simp only [List.flatten_cons, List.flatten_nil, List.append_nil] at hapart hbehind
    exact hapart.append_here hbehind _

theorem FormulaDocument.apart_checkNested? (limit depth : Nat) :
    ∀ d : Option FormulaDocument,
      Apart (Checked.presentFindings (FormulaDocument.checkNested? limit depth d)) ∧
        Behind (· = .field "calculationFormula")
          (Checked.presentFindings (FormulaDocument.checkNested? limit depth d))
  | none => ⟨apart_nil, List.forall_mem_nil _⟩
  | some d => by
    refine ⟨Checked.apart_within ?_ _, Checked.behind_within _ _ _⟩
    rw [Checked.findings_map]
    exact FormulaDocument.apart_check limit (depth + 1) d

end

/-! ### The names on the way -/

theorem MeterDocument.HasDefect.isPlain {d : MeterDocument} {p : Path} {e : Defect}
    (h : d.HasDefect p e) : ∀ s ∈ p, s.IsPlain := by
  cases h with
  | missing _ => simp [PathStep.IsPlain, PathStep.Opens]
  | identifier _ _ => simp [PathStep.IsPlain, PathStep.Opens]
  | direction _ _ => simp [PathStep.IsPlain, PathStep.Opens]
  | share h _ _ =>
    rcases mem_shares_iff.1 h with ⟨rfl, _⟩ | ⟨rfl, _⟩ | ⟨rfl, _⟩ <;>
      simp [PathStep.IsPlain, PathStep.Opens]

theorem FormulaDocument.isPlain_of_mem_rows {d : FormulaDocument} {operator : String}
    {ds : Option (List OperandDocument)} (h : (operator, ds) ∈ d.rows) :
    (PathStep.field operator).IsPlain := by
  rcases mem_rows_iff.1 h with ⟨rfl, _⟩ | ⟨rfl, _⟩ | ⟨rfl, _⟩ <;>
    simp [PathStep.IsPlain, PathStep.Opens]

theorem FormulaDocument.isPlain_of_mem_singles {d : FormulaDocument} {operator : String}
    {o : Option OperandDocument} (h : (operator, o) ∈ d.singles) :
    (PathStep.field operator).IsPlain := by
  rcases mem_singles_iff.1 h with ⟨rfl, _⟩ | ⟨rfl, _⟩ <;> simp [PathStep.IsPlain, PathStep.Opens]

theorem DifferenceDocument.isPlain_of_mem_sides {d : DifferenceDocument} {side : String}
    {o : Option OperandDocument} (h : (side, o) ∈ d.sides) :
    ∀ s ∈ [PathStep.field "sub", .field side], s.IsPlain := by
  rcases mem_sides_iff.1 h with ⟨rfl, _⟩ | ⟨rfl, _⟩ <;> simp [PathStep.IsPlain, PathStep.Opens]

theorem OperandDocument.isPlain_of_mem_variants {name : String}
    (h : name ∈ ["meloOperand", "const", "formulaVar", "calculationFormula"]) :
    (PathStep.field name).IsPlain := by
  simp only [List.mem_cons, List.not_mem_nil, or_false] at h
  rcases h with rfl | rfl | rfl | rfl <;> simp [PathStep.IsPlain, PathStep.Opens]

mutual

/-- All steps on the way to a defect of a formula are plain. -/
theorem FormulaDocument.HasDefect.isPlain {limit : Nat} :
    ∀ {depth : Nat} {d : FormulaDocument} {p : Path} {e : Defect},
      FormulaDocument.HasDefect limit depth d p e → ∀ s ∈ p, s.IsPlain
  | _, _, _, _, .deep _ => List.forall_mem_nil _
  | _, _, _, _, .union _ _ => List.forall_mem_nil _
  | _, _, _, _, .emptyRow _ h =>
    List.forall_mem_singleton.2 (FormulaDocument.isPlain_of_mem_rows h)
  | _, _, _, _, .row _ h _ ho =>
    List.forall_mem_cons.2 ⟨FormulaDocument.isPlain_of_mem_rows h,
      List.forall_mem_cons.2 ⟨trivial, ho.isPlain⟩⟩
  | _, _, _, _, .missingSide _ _ h => DifferenceDocument.isPlain_of_mem_sides h
  | _, _, _, _, .side _ _ h ho =>
    List.forall_mem_append.2 ⟨DifferenceDocument.isPlain_of_mem_sides h, ho.isPlain⟩
  | _, _, _, _, .single _ h ho =>
    List.forall_mem_cons.2 ⟨FormulaDocument.isPlain_of_mem_singles h, ho.isPlain⟩

theorem OperandDocument.HasDefect.isPlain {limit : Nat} :
    ∀ {depth : Nat} {o : OperandDocument} {p : Path} {e : Defect},
      OperandDocument.HasDefect limit depth o p e → ∀ s ∈ p, s.IsPlain
  | _, _, _, _, .union _ => List.forall_mem_nil _
  | _, _, _, _, .meter _ hp =>
    List.forall_mem_cons.2 ⟨OperandDocument.isPlain_of_mem_variants (by simp), hp.isPlain⟩
  | _, _, _, _, .constant _ _ =>
    List.forall_mem_singleton.2 (OperandDocument.isPlain_of_mem_variants (by simp))
  | _, _, _, _, .formulaVariable _ _ =>
    List.forall_mem_singleton.2 (OperandDocument.isPlain_of_mem_variants (by simp))
  | _, _, _, _, .nested _ hp =>
    List.forall_mem_cons.2 ⟨OperandDocument.isPlain_of_mem_variants (by simp), hp.isPlain⟩

end

/-! ### Main result -/

/-- The findings of a document are its defects, each of them once, at places that are different as
they are written; and the document is accepted exactly if it has no defect. -/
theorem FormulaDocument.validate_reports (d : FormulaDocument) (maxDepth : Nat) :
    (∀ f, f ∈ (d.validate maxDepth).findings ↔
        ∃ p, f.path = .field "calculationFormula" :: p ∧ d.HasDefect maxDepth 1 p f.defect) ∧
      ((d.validate maxDepth).findings.map fun f => f.info.path).Nodup ∧
        (∀ f ∈ (d.validate maxDepth).findings, f.info.path = some (Path.text f.path)) ∧
          ((∃ f, d.validate maxDepth = .valid f) ↔ ∀ p e, ¬ d.HasDefect maxDepth 1 p e) := by
  have hmem : ∀ f, f ∈ (d.validate maxDepth).findings ↔
      ∃ p, f.path = .field "calculationFormula" :: p ∧ d.HasDefect maxDepth 1 p f.defect :=
    fun f => Checked.mem_findings_within_iff fun g => FormulaDocument.mem_check_iff
  have hpath : ∀ f ∈ (d.validate maxDepth).findings, f.info.path = some (Path.text f.path) := by
    intro f hf
    obtain ⟨p, hp, _⟩ := (hmem f).1 hf
    rw [Finding.info, hp]
    rfl
  refine ⟨hmem, ?_, hpath, ?_⟩
  · have hapart : Apart (d.validate maxDepth).findings :=
      Checked.apart_within (FormulaDocument.apart_check maxDepth 1 d) _
    refine List.pairwise_map.2 (hapart.imp_of_mem fun {f g} hf hg hne heq => hne ?_)
    rw [hpath f hf, hpath g hg, Option.some.injEq] at heq
    obtain ⟨p, hp, hfdefect⟩ := (hmem f).1 hf
    obtain ⟨q, hq, hgdefect⟩ := (hmem g).1 hg
    rw [hp, hq] at heq ⊢
    rw [Path.text_inj (by decide) hfdefect.isPlain hgdefect.isPlain heq]
  · rw [← Checked.findings_eq_nil_iff, List.eq_nil_iff_forall_not_mem]
    constructor
    · intro h p e he
      exact h ⟨.field "calculationFormula" :: p, e⟩ ((hmem _).2 ⟨p, rfl, he⟩)
    · intro h f hf
      obtain ⟨p, _, he⟩ := (hmem f).1 hf
      exact h p f.defect he

end EnergyFormula
