import EnergyFormula.Proofs.Conversion.Lowering
import EnergyFormula.Proofs.Expression.Part
import EnergyFormula.Proofs.Formula.Part

/-!
# What can be lowered

Whether an expression can be lowered is seen node by node: the function must stand for an operator
and have as many parameters as the operator takes, and every parameter must be a term
(`Expression.IsRepresentable`).  `Expression.exists_lowersTo_iff` says so of one node, and the
induction over the nodes gives the domain of lowering (`Expression.lower_domain`).  Lowering itself
never writes an operator without operands, so a formula lacks operands only where an operand that
was bound does (`Expression.LowersTo.hasOperands_iff`).
-/

namespace EnergyFormula

/-! ### Representable nodes -/

/-- The name is bound, or else it can stand as a variable. -/
def Bindings.Knows (bindings : Bindings) (name : String) : Prop :=
  bindings.lookup name ≠ none ∨ IdentifierKind.formulaVariable.admits name = true

/-- The parameter has an arithmetic meaning; of a nested expression nothing is asked here. -/
def Parameter.IsTerm (bindings : Bindings) : Parameter → Prop
  | .constant value => value.isFinite = true
  | .series name factor => bindings.Knows name ∧ factor.isFinite = true
  | .literal _ => False
  | .expression _ => True

/-- The function stands for an operator, and the operator takes that many operands. -/
def DomainFunction.LowersWith (function : DomainFunction) (count : Nat) : Prop :=
  (function ∈ [.groupedSum, .extension "add", .extension "mul", .extension "div"] ∧ 1 ≤ count) ∨
    (function = .extension "sub" ∧ count = 2) ∨
    (function ∈ [.extension "pos", .extension "operand"] ∧ count = 1)

/-- The function of the expression stands for an operator with that many operands, and the
parameters are terms. -/
structure Expression.IsRepresentable (bindings : Bindings) (e : Expression) : Prop where
  count : e.function.LowersWith e.parameters.length
  terms : ∀ p ∈ e.parameters, p.IsTerm bindings

variable {bindings : Bindings} {scaled : Bool}

/-! ### Parameters -/

theorem Bindings.exists_resolves_iff {name : String} :
    (∃ r, bindings.Resolves name r) ↔ bindings.Knows name := by
  unfold Resolves Knows
  cases bindings.lookup name with
  | some op => simp
  | none =>
    constructor
    · rintro ⟨r, h | ⟨_, v, rfl, _⟩⟩
      · cases h
      · exact .inr v.admitted
    · rintro (h | h)
      · exact absurd rfl h
      · exact ⟨_, .inr ⟨rfl, ⟨name, h⟩, rfl, rfl⟩⟩

/-- A parameter can be lowered, with or without its factor, if it is a term and the expression in it
can be lowered. -/
theorem Parameter.exists_lowersTo_iff {p : Parameter} :
    (∃ op, p.LowersTo bindings scaled op) ↔
      p.IsTerm bindings ∧ ∀ e, p = .expression e → ∃ f, e.LowersTo bindings f := by
  cases p with
  | constant value =>
    rw [IsTerm, ← ConstLiteral.exists_ofNumber_iff]
    constructor
    · rintro ⟨_, _ | _ | hc⟩
      exact ⟨⟨_, hc⟩, nofun⟩
    · rintro ⟨⟨c, hc⟩, _⟩
      exact ⟨_, .constant hc⟩
  | series name factor =>
    rw [IsTerm, ← Bindings.exists_resolves_iff, ← ConstLiteral.exists_ofNumber_iff]
    constructor
    · rintro ⟨_, hr | ⟨_, hr, hc⟩⟩
      · exact ⟨⟨⟨_, hr⟩, ConstLiteral.exists_ofNumber_iff.2 (by decide)⟩, nofun⟩
      · exact ⟨⟨⟨_, hr⟩, _, hc⟩, nofun⟩
    · rintro ⟨⟨⟨r, hr⟩, c, hc⟩, _⟩
      by_cases hbare : scaled = false ∧ factor = 1
      · obtain ⟨rfl, rfl⟩ := hbare
        exact ⟨r, .reference hr⟩
      · exact ⟨_, .product (fun hs hone => hbare ⟨hs, hone⟩) hr hc⟩
  | literal s => exact iff_of_false nofun nofun
  | expression e =>
    constructor
    · rintro ⟨_, _ | _ | _ | he⟩
      exact ⟨trivial, fun _ h => by cases h; exact ⟨_, he⟩⟩
    · rintro ⟨_, h⟩
      obtain ⟨f, hf⟩ := h e rfl
      exact ⟨_, .expression hf⟩

/-- Parameters can be lowered together if each of them can. -/
theorem Parameter.exists_allLowerTo_iff {ps : List Parameter} :
    (∃ ops, Parameter.AllLowerTo bindings scaled ps ops) ↔
      ∀ p ∈ ps, ∃ op, p.LowersTo bindings scaled op := by
  induction ps with
  | nil => exact iff_of_true ⟨[], .nil⟩ nofun
  | cons p rest ih =>
    rw [List.forall_mem_cons, ← ih]
    constructor
    · rintro ⟨_, _ | ⟨hp, hrest⟩⟩
      exact ⟨⟨_, hp⟩, _, hrest⟩
    · rintro ⟨⟨op, hp⟩, ops, hrest⟩
      exact ⟨op :: ops, .cons hp hrest⟩

/-! ### One node -/

/-- An operator of that name is applied to the operands if its function is lowered with as many. -/
theorem Formula.exists_applies_iff {name : String} {ops : List Operand} :
    (∃ f, Formula.Applies f name ops) ↔
      (DomainFunction.extension name).LowersWith ops.length := by
  constructor
  · rintro ⟨f, hf⟩
    have hpos := List.length_pos_of_ne_nil hf.operands_ne_nil
    obtain ⟨rfl, rfl, _⟩ := hf
    cases f with
    | add ops => exact .inl ⟨by simp [operatorName], hpos⟩
    | mul ops => exact .inl ⟨by simp [operatorName], hpos⟩
    | div ops => exact .inl ⟨by simp [operatorName], hpos⟩
    | sub a b => exact .inr (.inl ⟨rfl, rfl⟩)
    | pos op => exact .inr (.inr ⟨by simp [operatorName], rfl⟩)
    | operand op => exact .inr (.inr ⟨by simp [operatorName], rfl⟩)
  · rintro (⟨hname, hcount⟩ | ⟨hname, hcount⟩ | ⟨hname, hcount⟩)
    · have hne : ops = [] → False := List.ne_nil_of_length_pos hcount
      simp only [List.mem_cons, reduceCtorEq, DomainFunction.extension.injEq, List.not_mem_nil,
        false_or, or_false] at hname
      have hcheck := DomainFunction.check_of_ne_nil hname hne
      rcases hname with rfl | rfl | rfl
      · exact ⟨.add ops, rfl, rfl, hcheck⟩
      · exact ⟨.mul ops, rfl, rfl, hcheck⟩
      · exact ⟨.div ops, rfl, rfl, hcheck⟩
    · obtain ⟨a, b, rfl⟩ := List.length_eq_two.1 hcount
      cases hname
      exact ⟨.sub a b, rfl, rfl, rfl⟩
    · obtain ⟨op, rfl⟩ := List.length_eq_one_iff.1 hcount
      simp only [List.mem_cons, DomainFunction.extension.injEq, List.not_mem_nil, or_false]
        at hname
      rcases hname with rfl | rfl
      · exact ⟨.pos op, rfl, rfl, rfl⟩
      · exact ⟨.operand op, rfl, rfl, rfl⟩

namespace Expression

/-- A rule applies to a function that stands for an operator, and lowers all of its parameters. -/
theorem LowersTo.exists_allLowerTo {e : Expression} {f : Formula} (h : e.LowersTo bindings f) :
    e.function.LowersWith e.parameters.length ∧
      ∃ scaled ops, Parameter.AllLowerTo bindings scaled e.parameters ops := by
  cases h with
  | scaled hne hr hc =>
    exact ⟨.inl ⟨List.mem_cons_self, Nat.le_refl 1⟩, false, _,
      .cons (.product (fun _ => hne) hr hc) .nil⟩
  | single _ hp => exact ⟨.inl ⟨List.mem_cons_self, Nat.le_refl 1⟩, false, _, .cons hp .nil⟩
  | sum hlen hps => exact ⟨.inl ⟨List.mem_cons_self, Nat.le_of_succ_le hlen⟩, true, _, hps⟩
  | operator hps hf =>
    refine ⟨?_, false, _, hps⟩
    rw [parameters, ← hps.length_eq]
    exact Formula.exists_applies_iff.1 ⟨_, hf⟩

/-- A sum of one term can be lowered if the term can, whichever rule writes it. -/
theorem exists_lowersTo_single {p : Parameter} {op : Operand}
    (h : p.LowersTo bindings false op) :
    ∃ f, (Expression.apply .groupedSum [p]).LowersTo bindings f := by
  cases h with
  | product hne hr hc => exact ⟨_, .scaled (hne rfl) hr hc⟩
  | reference hr => exact ⟨_, .single (fun _ _ heq => by cases heq; rfl) (.reference hr)⟩
  | constant hc => exact ⟨_, .single nofun (.constant hc)⟩
  | expression he => exact ⟨_, .single nofun (.expression he)⟩

theorem exists_lowersTo_of_parameters {function : DomainFunction} {ps : List Parameter}
    (hcount : function.LowersWith ps.length)
    (hps : ∀ p ∈ ps, ∀ scaled, ∃ op, p.LowersTo bindings scaled op) :
    ∃ f, (Expression.apply function ps).LowersTo bindings f := by
  have hrow (scaled : Bool) : ∃ ops, Parameter.AllLowerTo bindings scaled ps ops :=
    Parameter.exists_allLowerTo_iff.2 fun p hp => hps p hp scaled
  cases function with
  | extension name =>
    obtain ⟨ops, hops⟩ := hrow false
    rw [← hops.length_eq] at hcount
    obtain ⟨f, hf⟩ := Formula.exists_applies_iff.2 hcount
    exact ⟨f, .operator hops hf⟩
  | groupedSum =>
    match ps, hcount with
    | [p], _ =>
      obtain ⟨op, hp⟩ := hps p List.mem_cons_self false
      exact exists_lowersTo_single hp
    | p :: q :: rest, _ =>
      obtain ⟨ops, hops⟩ := hrow true
      exact ⟨_, .sum (Nat.le_add_left 2 _) hops⟩
    | [], hcount => simp [DomainFunction.LowersWith] at hcount
  | _ => simp [DomainFunction.LowersWith] at hcount

/-- An expression can be lowered if its outermost node is representable and the expressions among
its parameters can be lowered. -/
theorem exists_lowersTo_iff {e : Expression} :
    (∃ f, e.LowersTo bindings f) ↔
      e.IsRepresentable bindings ∧
        ∀ g, Parameter.expression g ∈ e.parameters → ∃ f, g.LowersTo bindings f := by
  constructor
  · rintro ⟨f, hf⟩
    obtain ⟨hcount, scaled, hrow⟩ := hf.exists_allLowerTo
    have hps (p : Parameter) (hp : p ∈ e.parameters) :=
      Parameter.exists_lowersTo_iff.1 (Parameter.exists_allLowerTo_iff.1 hrow p hp)
    exact ⟨⟨hcount, fun p hp => (hps p hp).1⟩, fun g hg => (hps _ hg).2 g rfl⟩
  · rintro ⟨⟨hcount, hterms⟩, hnested⟩
    cases e with
    | apply function ps =>
      refine exists_lowersTo_of_parameters hcount fun p hp scaled => ?_
      exact Parameter.exists_lowersTo_iff.2 ⟨hterms p hp, fun g hg => hnested g (hg ▸ hp)⟩

/-- An expression can be lowered if all of its nodes are representable. -/
theorem exists_lowersTo_iff_forall_part (e : Expression) :
    (∃ f, e.LowersTo bindings f) ↔ ∀ g, Part g e → g.IsRepresentable bindings := by
  induction e using Expression.induction with
  | step function ps ih =>
    rw [exists_lowersTo_iff, forall_part_iff]
    exact and_congr_right fun _ => forall₂_congr ih

end Expression

/-! ### Operators without operands -/

/-- No operand that is bound to one of the names has an operator that lacks operands. -/
def Bindings.HaveOperands (bindings : Bindings) (names : List String) : Prop :=
  ∀ name ∈ names, ∀ op, bindings.lookup name = some op → op.HasOperands

theorem Bindings.Resolves.hasOperands_iff {name : String} {r : Operand}
    (h : bindings.Resolves name r) : r.HasOperands ↔ bindings.HaveOperands [name] := by
  unfold HaveOperands
  rcases h with h | ⟨h, v, _, rfl⟩
  · simp [h]
  · simp [h, Operand.HasOperands]

/-- The product of a series and its factor has the operands of the series. -/
theorem Formula.hasOperands_scaled {r : Operand} {c : ConstLiteral} :
    (Formula.mul [r, .constant c]).HasOperands ↔ r.HasOperands := by
  rw [hasOperands_iff, operands, List.forall_mem_cons, List.forall_mem_singleton]
  exact ⟨fun h => h.2.1, fun h => ⟨List.cons_ne_nil _ _, h, trivial⟩⟩

mutual

/-- A formula lacks operands only where an operand bound to a series of its expression does. -/
theorem Expression.LowersTo.hasOperands_iff :
    ∀ {e : Expression} {f : Formula}, e.LowersTo bindings f →
      (f.HasOperands ↔ bindings.HaveOperands e.allNames)
  | _, _, .scaled _ hr _ => by
    rw [Formula.hasOperands_scaled, hr.hasOperands_iff]
    rfl
  | _, _, .single _ hp => by
    rw [Formula.hasOperands_iff, Expression.allNames, Parameter.listNames, Parameter.listNames,
      List.append_nil, ← hp.hasOperands_iff]
    simp [Formula.operands]
  | _, _, .sum hlen hps => by
    rw [Formula.hasOperands_iff, Expression.allNames, ← hps.hasOperands_iff]
    refine and_iff_right (List.ne_nil_of_length_pos ?_)
    rw [Formula.operands, hps.length_eq]
    omega
  | _, _, .operator hps hf => by
    rw [Formula.hasOperands_iff, Expression.allNames, ← hps.hasOperands_iff, ← hf.operands_eq]
    exact and_iff_right hf.operands_ne_nil

theorem Parameter.LowersTo.hasOperands_iff :
    ∀ {scaled : Bool} {p : Parameter} {op : Operand}, p.LowersTo bindings scaled op →
      (op.HasOperands ↔ bindings.HaveOperands p.allNames)
  | _, _, _, .reference hr => hr.hasOperands_iff
  | _, _, _, .product _ hr _ => by
    rw [Operand.HasOperands, Formula.hasOperands_scaled, hr.hasOperands_iff, Parameter.allNames]
  | _, _, _, .constant _ => iff_of_true trivial nofun
  | _, _, _, .expression he => he.hasOperands_iff

theorem Parameter.AllLowerTo.hasOperands_iff :
    ∀ {scaled : Bool} {ps : List Parameter} {ops : List Operand},
      Parameter.AllLowerTo bindings scaled ps ops →
        ((∀ op ∈ ops, op.HasOperands) ↔ bindings.HaveOperands (Parameter.listNames ps))
  | _, _, _, .nil => iff_of_true nofun nofun
  | _, _, _, .cons hp hps => by
    rw [List.forall_mem_cons, hp.hasOperands_iff, hps.hasOperands_iff, Parameter.listNames]
    exact List.forall_mem_append.symm

end

/-! ### Main result -/

/-- Lowering succeeds exactly if every node of the expression is representable; one node that is
not, at any depth, makes it fail as a whole.  The formula has operands for every operator exactly if
the operands that are bound to series of the expression do. -/
theorem Expression.lower_domain (bindings : Bindings) (e : Expression) :
    ((∃ f, e.lower bindings = .ok f) ↔ ∀ g, Part g e → g.IsRepresentable bindings) ∧
      (∀ g, Part g e → ¬ g.IsRepresentable bindings → ∃ err, e.lower bindings = .error err) ∧
      ∀ f, e.lower bindings = .ok f → (f.HasOperands ↔ bindings.HaveOperands e.allNames) := by
  have hdomain : (∃ f, e.lower bindings = .ok f) ↔ ∀ g, Part g e → g.IsRepresentable bindings := by
    simp only [lower_eq_ok_iff]
    exact exists_lowersTo_iff_forall_part e
  refine ⟨hdomain, fun g hg hnot => ?_, fun f hf => ?_⟩
  · cases hlower : e.lower bindings with
    | error err => exact ⟨err, rfl⟩
    | ok f => exact absurd (hdomain.1 ⟨f, hlower⟩ g hg) hnot
  · exact (lower_eq_ok_iff.1 hf).hasOperands_iff

/-- A rounding within a sum makes the sum fail. -/
example :
    (Expression.apply .groupedSum
      [.series "x" 1, .expression (.apply .round [.series "y" 1, .constant 2])]).lower [] =
        .error (.unrepresentable .round) := by
  rfl

end EnergyFormula
