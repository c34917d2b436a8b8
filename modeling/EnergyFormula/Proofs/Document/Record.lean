import EnergyFormula.Document.Record
import EnergyFormula.Proofs.Outcome

/-!
# Reading what is written

What a record makes of an object depends on the values under the keys of its fields.  It gives what
the fields give (`Record.Gives.seq`), and it is refused if one of them is refused and all others
give something (`Record.Refused.seq`).  A list gives what its items give, and is refused for the
first item that is refused (`list_array`).
-/

namespace EnergyFormula.Document

/-- The values that stand under the keys. -/
def valuesAt (keys : List String) (members : List (String × Json)) : List Json :=
  (members.filter fun m => keys.contains m.1).map Prod.snd

theorem values_memberParts (members : List (String × Json)) :
    (memberParts members).map (fun m => (m.1, m.2.1)) = members := by
  unfold memberParts
  rw [List.map_map]
  exact List.attach_map_subtype_val members

theorem values_itemParts (items : List Json) : (itemParts items).map Subtype.val = items := by
  unfold itemParts
  rw [List.map_map]
  exact List.attach_map_subtype_val items

namespace Record

variable {whole : Json} {parts : List (String × Part whole)} {members : List (String × Json)}
  {keys : List String} {α β : Type}

/-- The occurrences of a field have the values that stand under its keys. -/
theorem values_occurrences (keys : List String) (parts : List (String × Part whole)) :
    (occurrences keys parts).map (fun o => o.2.1) =
      valuesAt keys (parts.map fun m => (m.1, m.2.1)) := by
  have hparts : parts.zipIdx.map Prod.fst = parts := List.zipIdx_map_fst 0 parts
  have hvalues : valuesAt keys ((parts.zipIdx.map Prod.fst).map fun m => (m.1, m.2.1)) =
      (occurrences keys parts).map (fun o => o.2.1) := by
    unfold valuesAt occurrences
    rw [List.map_map, List.filter_map, List.map_map, List.map_map]
    rfl
  rw [← hvalues, hparts]

/-! ### Fields -/

/-- The record comes to a value for the parts. -/
def RunsTo (r : Record whole α) (parts : List (String × Part whole)) (a : α) : Prop :=
  r.run parts = .ok a

/-- The record gives a value for the object of the members. -/
def Gives (r : Record (.object members) α) (a : α) : Prop :=
  r.run (memberParts members) = .ok a

/-- The record is refused for the object of the members. -/
def Refused (r : Record (.object members) α) (refusal : Refusal) : Prop :=
  ∃ place, r.run (memberParts members) = .error ⟨place, refusal⟩

section Field

variable {absent : Option α} {read : Json → Decoded α} {v : Json} {a : α}

/-- A field that stands in one place is read there. -/
theorem exists_run_field (absent : Option α) (read : Json → Decoded α)
    (h : valuesAt keys (parts.map fun m => (m.1, m.2.1)) = [v]) :
    ∃ place, (field keys absent fun part : Part whole => read part.1).run parts =
      (read v).mapError fun refusal => ⟨place, refusal⟩ := by
  have hvalues := values_occurrences keys parts
  rw [h, List.map_eq_singleton_iff] at hvalues
  obtain ⟨⟨place, part⟩, hplace, rfl⟩ := hvalues
  refine ⟨place, ?_⟩
  unfold field
  dsimp only
  rw [hplace]
  dsimp only
  cases read part.1 with
  | ok a => rfl
  | error refusal => rfl

theorem runsTo_field (h : valuesAt keys (parts.map fun m => (m.1, m.2.1)) = [v])
    (hread : read v = .ok a) :
    (field keys absent fun part : Part whole => read part.1).RunsTo parts a := by
  obtain ⟨place, hrun⟩ := exists_run_field absent read h
  rw [RunsTo, hrun, hread]
  rfl

theorem gives_field (h : valuesAt keys members = [v]) (hread : read v = .ok a) :
    (field keys absent fun part : Part (.object members) => read part.1).Gives a :=
  runsTo_field (by rw [values_memberParts, h]) hread

theorem gives_required (h : valuesAt keys members = [v]) (hread : read v = .ok a) :
    (required keys read : Record (.object members) α).Gives a :=
  gives_field h hread

theorem gives_defaulted {whenAbsent : α} (h : valuesAt keys members = [v])
    (hread : read v = .ok a) :
    (defaulted keys whenAbsent read : Record (.object members) α).Gives a :=
  gives_field h hread

theorem refused_field {refusal : Refusal} (h : valuesAt keys members = [v])
    (hread : read v = .error refusal) :
    (field keys absent fun part : Part (.object members) => read part.1).Refused refusal := by
  have hvalues : valuesAt keys ((memberParts members).map fun m => (m.1, m.2.1)) = [v] := by
    rw [values_memberParts, h]
  obtain ⟨place, hrun⟩ := exists_run_field absent read hvalues
  refine ⟨place, ?_⟩
  rw [hrun, hread]
  rfl

theorem refused_required {refusal : Refusal} (h : valuesAt keys members = [v])
    (hread : read v = .error refusal) :
    (required keys read : Record (.object members) α).Refused refusal :=
  refused_field h hread

theorem refused_defaulted {whenAbsent : α} {refusal : Refusal}
    (h : valuesAt keys members = [v]) (hread : read v = .error refusal) :
    (defaulted keys whenAbsent read : Record (.object members) α).Refused refusal :=
  refused_field h hread

/-- A field that stands nowhere has the value for its absence. -/
theorem gives_field_absent (h : valuesAt keys members = []) (read : Part (.object members) → _) :
    (field keys (some a) read).Gives a := by
  have hvalues := values_occurrences keys (memberParts members)
  rw [values_memberParts, h, List.map_eq_nil_iff] at hvalues
  unfold Gives field
  dsimp only
  rw [hvalues]

/-- The value that is read, or none for `null`. -/
def orNull (read : Json → Decoded α) (v : Json) : Decoded (Option α) :=
  match v with
  | .null => .ok none
  | _ => (read v).map some

theorem orNull_of_ne (h : v ≠ .null) : orNull read v = (read v).map some := by
  cases v with
  | null => exact absurd rfl h
  | _ => rfl

theorem optional_eq (keys : List String) (read : Json → Decoded α) :
    (optional keys read : Record whole (Option α)) =
      field keys (some none) fun part => orNull read part.1 := by
  unfold optional optionalPart orNull
  rfl

/-- An optional field is read as what is written, if anything is. -/
theorem gives_optional {o : Option α} {write : α → Json}
    (h : valuesAt keys members = (o.map write).toList)
    (hread : ∀ a ∈ o, write a ≠ .null ∧ read (write a) = .ok a) :
    (optional keys read : Record (.object members) (Option α)).Gives o := by
  rw [optional_eq]
  cases o with
  | none => exact gives_field_absent h _
  | some a =>
    obtain ⟨hnull, hread⟩ := hread a rfl
    have hpresent : orNull read (write a) = .ok (some a) := by
      rw [orNull_of_ne hnull, hread]
      rfl
    exact gives_field h hpresent

/-- A text that is not written where it is absent. -/
theorem gives_text {o : Option String} (h : valuesAt keys members = (o.map Json.string).toList) :
    (optional keys string : Record (.object members) (Option String)).Gives o :=
  gives_optional h fun _ _ => ⟨nofun, rfl⟩

end Field

/-! ### Records of fields -/

section Fields

variable {f : Record (.object members) (α → β)} {x : Record (.object members) α} {g : α → β}
  {a : α} {refusal : Refusal}

theorem RunsTo.map {x : Record whole α} (g : α → β) (h : x.RunsTo parts a) :
    (g <$> x).RunsTo parts (g a) := by
  show applyFields (.ok g) (x.run parts) = _
  rw [show x.run parts = _ from h]
  rfl

theorem RunsTo.seq {f : Record whole (α → β)} {x : Record whole α} (hf : f.RunsTo parts g)
    (hx : x.RunsTo parts a) : (f <*> x).RunsTo parts (g a) := by
  show applyFields (f.run parts) (x.run parts) = _
  rw [show f.run parts = _ from hf, show x.run parts = _ from hx]
  rfl

theorem Gives.map (g : α → β) (h : x.Gives a) : (g <$> x).Gives (g a) :=
  RunsTo.map g h

theorem Gives.seq (hf : f.Gives g) (hx : x.Gives a) : (f <*> x).Gives (g a) :=
  RunsTo.seq hf hx

/-- A record is refused with its last field. -/
theorem Gives.seq_refused (hf : f.Gives g) (hx : x.Refused refusal) : (f <*> x).Refused refusal := by
  obtain ⟨place, hx⟩ := hx
  refine ⟨place, ?_⟩
  show applyFields (f.run (memberParts members)) (x.run (memberParts members)) = _
  rw [show f.run (memberParts members) = _ from hf, hx]
  rfl

/-- A record is refused with the fields before its last one. -/
theorem Refused.seq (hf : f.Refused refusal) (hx : x.Gives a) : (f <*> x).Refused refusal := by
  obtain ⟨place, hf⟩ := hf
  refine ⟨place, ?_⟩
  show applyFields (f.run (memberParts members)) (x.run (memberParts members)) = _
  rw [hf, show x.run (memberParts members) = _ from hx]
  rfl

theorem RunsTo.readFrom {x : Record whole α} (h : x.RunsTo parts a) :
    x.readFrom (.members parts) = .ok a := by
  show (x.run parts).mapError Fault.refusal = _
  rw [show x.run parts = _ from h]
  rfl

theorem Gives.read (h : x.Gives a) : x.read = .ok a :=
  RunsTo.readFrom h

theorem Refused.read (h : x.Refused refusal) : x.read = .error refusal := by
  obtain ⟨place, h⟩ := h
  show (x.run (memberParts members)).mapError Fault.refusal = _
  rw [h]
  rfl

end Fields

end Record

/-! ### Written fields -/

/-- The fields of a written object are those that have a value. -/
theorem valuesAt_filterMap (keys : List String) (fields : List (String × Option Json)) :
    valuesAt keys (fields.filterMap fun (key, value) => value.map fun v => (key, v)) =
      (fields.filter fun f => keys.contains f.1).filterMap Prod.snd := by
  unfold valuesAt
  induction fields with
  | nil => rfl
  | cons f rest ih =>
    obtain ⟨key, value⟩ := f
    rw [List.filterMap_cons, List.filter_cons]
    dsimp only
    cases value with
    | none =>
      rw [Option.map_none, ih]
      split
      · rw [List.filterMap_cons_none rfl]
      · rfl
    | some v =>
      rw [Option.map_some, List.filter_cons]
      split
      · rw [List.map_cons, ih, List.filterMap_cons]
      · exact ih

/-- The value of a written field, if it has one. -/
theorem valuesAt_written {keys : List String} {fields : List (String × Option Json)}
    (value : Option Json)
    (h : (fields.filter fun f => keys.contains f.1).map Prod.snd = [value]) :
    valuesAt keys (fields.filterMap fun (key, value) => value.map fun v => (key, v)) =
      value.toList := by
  obtain ⟨⟨key, value⟩, hfilter, rfl⟩ := List.map_eq_singleton_iff.1 h
  rw [valuesAt_filterMap, hfilter, List.filterMap_cons, List.filterMap_nil]
  cases value <;> rfl

/-! ### Lists -/

theorem list_array {α : Type} (read : Json → Decoded α) (items : List Json) :
    list read (.array items) = items.mapM read := by
  show (itemParts items).mapM (fun part => read part.1) = _
  rw [← values_itemParts items, List.mapM_map, values_itemParts]
  rfl

end EnergyFormula.Document
