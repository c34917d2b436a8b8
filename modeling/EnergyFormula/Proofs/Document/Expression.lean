import EnergyFormula.Document.Expression
import EnergyFormula.Proofs.Document.Series

/-!
# Expressions in documents

A parameter is read from the fields beside the one that names its kind.  Whatever expression was
read, with its functions under either of their names and its numbers as text or not, is written with
the interchange names and finite numbers, and read back (`Expression.readsBack`).
-/

namespace EnergyFormula

open Document

/-! ### Functions and numbers -/

theorem DomainFunction.ofName_wireName_ofName (name : String) :
    DomainFunction.ofName (DomainFunction.ofName name).wireName = DomainFunction.ofName name := by
  cases h : DomainFunction.ofName name with
  | extension other =>
    obtain rfl := DomainFunction.ofName_extension_name h
    exact h
  | _ => exact DomainFunction.ofName_wireName rfl

theorem DomainFunction.readsBack (v : Json) :
    ReadsBack DomainFunction.read DomainFunction.write v := by
  intro f h
  obtain ⟨name, _, rfl⟩ := map_eq_ok_iff.1 h
  exact congrArg Except.ok (DomainFunction.ofName_wireName_ofName name)

theorem Document.flexible_ofFloat {x : Float} (h : x.isFinite = true) :
    flexible (.ofFloat x) = .ok x := by
  unfold Json.ofFloat
  rw [if_pos h]
  exact if_pos h

/-! ### Fields of a parameter -/

/-- The fields of a parameter beside its kind. -/
def Parameter.fields (whole : Json) : ParameterKind → Record whole Parameter
  | .constant => .constant <$> .required ["value"] flexible
  | .series =>
    .series <$> .required ["value", "name"] string <*> .defaulted ["scalingFactor"] 1 flexible
  | .literal => .literal <$> .required ["value"] string
  | .expression => .expression <$> .required ["value"] (Expression.read true)

theorem Parameter.read_eq (inner : Bool) (v : Json) :
    Parameter.read inner v = (source v >>= fun values => takeTag "type" values >>= fun tagged =>
      ParameterKind.read inner tagged.1.1 >>= fun kind =>
        (Parameter.fields v kind).readFrom tagged.2) := by
  rw [Parameter.read]
  rfl

theorem Expression.read_eq (inner : Bool) (v : Json) :
    Expression.read inner v =
      (Expression.apply <$> .required ["function"] DomainFunction.read
        <*> .defaulted ["parameters"] [] (list (Parameter.read inner)) :
          Record v Expression).read := by
  rw [Expression.read]
  rfl

/-- The tag of an object is taken, the members under other keys are left. -/
theorem Document.takeTag_memberParts {key other : String} {tag : Json}
    {members : List (String × Json)}
    (h : (members.filter fun m => m.1 = key) = [(other, tag)]) :
    ∃ part rest, takeTag key (.members (memberParts members)) = .ok (part, .members rest) ∧
      part.1 = tag ∧ (rest.map fun m => (m.1, m.2.1)) = members.filter fun m => m.1 ≠ key := by
  have hfilter : ∀ p : String → Bool,
      ((memberParts members).filter fun m => p m.1).map (fun m => (m.1, m.2.1)) =
        members.filter fun m => p m.1 := by
    intro p
    conv_rhs => rw [← values_memberParts members, List.filter_map]
    rfl
  have htag := hfilter fun k => k = key
  rw [h, List.map_eq_singleton_iff] at htag
  obtain ⟨⟨name, part⟩, hpart, heq⟩ := htag
  refine ⟨part, (memberParts members).filter fun m => m.1 ≠ key, ?_, congrArg Prod.snd heq,
    hfilter fun k => k ≠ key⟩
  unfold takeTag
  dsimp only
  rw [hpart]

/-- A parameter is read from the fields beside the name of its kind. -/
theorem Parameter.read_tagged {inner : Bool} (kind : ParameterKind)
    {members : List (String × Json)} {p : Parameter}
    (htag : (members.filter fun m => m.1 = "type") = [("type", .string kind.name)])
    (h : ∀ parts : List (String × Part (.object members)),
      (parts.map fun m => (m.1, m.2.1)) = (members.filter fun m => m.1 ≠ "type") →
        (Parameter.fields (.object members) kind).RunsTo parts p) :
    Parameter.read inner (.object members) = .ok p := by
  obtain ⟨part, rest, htake, hpart, hrest⟩ := takeTag_memberParts htag
  rw [Parameter.read_eq]
  show (takeTag "type" (.members (memberParts members)) >>= _) = _
  rw [htake, ok_bind]
  dsimp only
  rw [hpart, ParameterKind.read_name, ok_bind]
  exact (h rest hrest).readFrom

/-! ### Parameters as they are written -/

theorem Parameter.read_write_constant (inner : Bool) {x : Float} (h : x.isFinite = true) :
    Parameter.read inner (Parameter.write (.constant x)) = .ok (.constant x) := by
  refine Parameter.read_tagged .constant (by simp [ParameterKind.name]) fun parts hparts => ?_
  have hvalue : valuesAt ["value"] (parts.map fun m => (m.1, m.2.1)) = [.ofFloat x] := by
    rw [hparts]
    simp [valuesAt]
  exact .map _ (Record.runsTo_field hvalue (flexible_ofFloat h))

theorem Parameter.read_write_series (inner : Bool) (name : String) {factor : Float}
    (h : factor.isFinite = true) :
    Parameter.read inner (Parameter.write (.series name factor)) = .ok (.series name factor) := by
  refine Parameter.read_tagged .series (by simp [ParameterKind.name]) fun parts hparts => ?_
  have hname : valuesAt ["value", "name"] (parts.map fun m => (m.1, m.2.1)) = [.string name] := by
    rw [hparts]
    simp [valuesAt]
  have hfactor : valuesAt ["scalingFactor"] (parts.map fun m => (m.1, m.2.1)) =
      [.ofFloat factor] := by
    rw [hparts]
    simp [valuesAt]
  exact .seq (.map _ (Record.runsTo_field hname rfl))
    (Record.runsTo_field hfactor (flexible_ofFloat h))

theorem Parameter.read_write_literal (inner : Bool) (s : String) :
    Parameter.read inner (Parameter.write (.literal s)) = .ok (.literal s) := by
  refine Parameter.read_tagged .literal (by simp [ParameterKind.name]) fun parts hparts => ?_
  have hvalue : valuesAt ["value"] (parts.map fun m => (m.1, m.2.1)) = [.string s] := by
    rw [hparts]
    simp [valuesAt]
  exact .map _ (Record.runsTo_field hvalue rfl)

theorem Parameter.read_write_expression (inner : Bool) {e : Expression}
    (h : Expression.read true e.write = .ok e) :
    Parameter.read inner (Parameter.write (.expression e)) = .ok (.expression e) := by
  refine Parameter.read_tagged .expression (by simp [ParameterKind.name]) fun parts hparts => ?_
  have hvalue : valuesAt ["value"] (parts.map fun m => (m.1, m.2.1)) = [e.write] := by
    rw [hparts]
    simp [valuesAt]
  exact .map _ (Record.runsTo_field hvalue h)

theorem Parameter.writeAll_eq (ps : List Parameter) :
    Parameter.writeAll ps = ps.map Parameter.write := by
  induction ps with
  | nil => rfl
  | cons p rest ih => rw [Parameter.writeAll, ih, List.map_cons]

/-! ### Main result -/

-- By recursion over the value that is read, as the readers go.
mutual

/-- An expression that was read is read back. -/
theorem Expression.readsBack (inner : Bool) (v : Json) :
    ReadsBack (Expression.read inner) Expression.write v := by
  intro e h
  rw [Expression.read_eq] at h
  obtain ⟨_, ps, rfl, h, hparameters⟩ := (Record.canGive_of_read h).of_seq
  obtain ⟨f, rfl, hfunction⟩ := h.of_map
  have hrow : ∀ part : Part v,
      ReadsBack (list (Parameter.read inner)) (array Parameter.write) part.1 :=
    fun row => list_readsBack fun item => Parameter.readsBack inner item.1
  rw [Expression.write, Expression.read_eq, Parameter.writeAll_eq]
  refine Record.Gives.read (.seq (.map _ ?_) ?_)
  · exact hfunction.again_required (fun part => DomainFunction.readsBack part.1) (by simp [valuesAt])
  · exact hparameters.again_defaulted rfl hrow (by simp [valuesAt, array])
termination_by sizeOf v
decreasing_by exact Nat.lt_trans item.2 row.2

/-- A parameter that was read is read back. -/
theorem Parameter.readsBack (inner : Bool) (v : Json) :
    ReadsBack (Parameter.read inner) Parameter.write v := by
  intro p h
  rw [Parameter.read_eq] at h
  obtain ⟨_, _, h⟩ := bind_eq_ok.1 h
  obtain ⟨⟨_, rest⟩, _, h⟩ := bind_eq_ok.1 h
  obtain ⟨kind, _, h⟩ := bind_eq_ok.1 h
  have h := Record.canGive_of_readFrom h
  cases kind with
  | constant =>
    obtain ⟨x, rfl, hvalue⟩ := h.of_map
    obtain ⟨_, hvalue⟩ := hvalue.of_required
    exact Parameter.read_write_constant inner (isFinite_of_flexible hvalue)
  | series =>
    obtain ⟨_, factor, rfl, h, hfactor⟩ := h.of_seq
    obtain ⟨name, rfl, _⟩ := h.of_map
    refine Parameter.read_write_series inner name ?_
    -- a reference without a factor is written with the factor one
    rcases Record.CanGive.of_field hfactor with habsent | ⟨_, hfactor⟩
    · cases habsent
      rfl
    · exact isFinite_of_flexible hfactor
  | literal =>
    obtain ⟨s, rfl, _⟩ := h.of_map
    exact Parameter.read_write_literal inner s
  | expression =>
    obtain ⟨e, rfl, hvalue⟩ := h.of_map
    obtain ⟨part, hvalue⟩ := hvalue.of_required
    exact Parameter.read_write_expression inner (Expression.readsBack true part.1 e hvalue)
termination_by sizeOf v
decreasing_by exact part.2

end

end EnergyFormula
