import EnergyFormula.Proofs.Document.Record
import EnergyFormula.Proofs.Json.Canonical
import EnergyFormula.Proofs.Rows

/-!
# What was read

A record that was read was read field by field (`Record.CanGive.of_seq`), each of them from a value
inside the whole or, if it may be absent, from nothing.  So a document is read back from its written
form if the values inside of it are: what a field has been read from once, under one of its keys or
in its place, it is read from again under the key that is written (`Record.CanGive.again_required`,
`again_defaulted`, `again_optional`).
-/

namespace EnergyFormula.Document

variable {α β : Type}

/-- Whatever is read from the value is read again from its written form. -/
def ReadsBack (read : Json → Decoded α) (write : α → Json) (v : Json) : Prop :=
  ∀ a, read v = .ok a → read (write a) = .ok a

/-! ### Records -/

namespace Record

variable {whole : Json} {keys : List String}

/-- The record gives a value for some members. -/
def CanGive (r : Record whole α) (a : α) : Prop :=
  ∃ members, r.run members = .ok a

theorem canGive_of_readFrom {r : Record whole α} {values : Source whole} {a : α}
    (h : r.readFrom values = .ok a) : r.CanGive a := by
  cases values with
  | members ms => exact ⟨ms, mapError_eq_ok_iff.1 h⟩
  | items vs =>
    unfold readFrom at h
    dsimp only at h
    split at h
    · cases h
    · rename_i b hrun
      split at h
      · cases h
      · cases h
        exact ⟨_, hrun⟩

theorem canGive_of_read {r : Record whole α} {a : α} (h : r.read = .ok a) : r.CanGive a := by
  obtain ⟨values, _, h⟩ := bind_eq_ok.1 h
  exact canGive_of_readFrom h

theorem applyFields_eq_ok {x : Except Fault (α → β)} {y : Except Fault α} {b : β}
    (h : applyFields x y = .ok b) : ∃ g a, g a = b ∧ x = .ok g ∧ y = .ok a := by
  cases x with
  | error e => cases y <;> cases h
  | ok g =>
    cases y with
    | error e => cases h
    | ok a =>
      cases h
      exact ⟨g, a, rfl, rfl, rfl⟩

theorem CanGive.of_map {g : α → β} {x : Record whole α} {b : β} (h : (g <$> x).CanGive b) :
    ∃ a, g a = b ∧ x.CanGive a := by
  obtain ⟨members, h⟩ := h
  obtain ⟨_, a, rfl, hg, ha⟩ := applyFields_eq_ok h
  cases hg
  exact ⟨a, rfl, members, ha⟩

theorem CanGive.of_seq {f : Record whole (α → β)} {x : Record whole α} {b : β}
    (h : (f <*> x).CanGive b) : ∃ g a, g a = b ∧ f.CanGive g ∧ x.CanGive a := by
  obtain ⟨members, h⟩ := h
  obtain ⟨g, a, rfl, hg, ha⟩ := applyFields_eq_ok h
  exact ⟨g, a, rfl, ⟨members, hg⟩, ⟨members, ha⟩⟩

/-! ### Fields -/

section Field

variable {absent : Option α} {read : Part whole → Decoded α} {a : α}

/-- A field is absent or was read from a part of the whole. -/
theorem CanGive.of_field (h : (field keys absent read).CanGive a) :
    absent = some a ∨ ∃ part, read part = .ok a := by
  obtain ⟨members, h⟩ := h
  unfold field at h
  dsimp only at h
  split at h
  · cases absent with
    | none => cases h
    | some b =>
      cases h
      exact .inl rfl
  · rename_i place part more _
    cases hread : read part with
    | error refusal =>
      rw [hread] at h
      cases h
    | ok b =>
      rw [hread] at h
      cases more with
      | nil =>
        cases h
        exact .inr ⟨part, hread⟩
      | cons again more => cases h

end Field

section Again

variable {members : List (String × Json)} {read : Json → Decoded α} {write : α → Json} {a : α}

theorem CanGive.of_required (h : (required keys read : Record whole α).CanGive a) :
    ∃ part : Part whole, read part.1 = .ok a := by
  rcases h.of_field with h | h
  · cases h
  · exact h

/-- An optional field was read from a value other than `null`, if it has a value. -/
theorem CanGive.of_optional {o : Option α}
    (h : (optional keys read : Record whole (Option α)).CanGive o) :
    ∀ a ∈ o, ∃ part : Part whole, part.1 ≠ .null ∧ read part.1 = .ok a := by
  rintro a ha
  rw [optional_eq] at h
  rcases h.of_field with h | ⟨part, hpart⟩
  · cases h
    cases ha
  · refine ⟨part, ?_⟩
    by_cases hnull : part.1 = .null
    · -- `null` is read as no value
      rw [hnull] at hpart
      cases hpart
      cases ha
    · rw [orNull_of_ne hnull] at hpart
      obtain ⟨b, hb, rfl⟩ := map_eq_ok_iff.1 hpart
      cases ha
      exact ⟨hnull, hb⟩

/-- A required field is read from its written form. -/
theorem CanGive.again_required (h : (required keys read : Record whole α).CanGive a)
    (hread : ∀ part : Part whole, ReadsBack read write part.1)
    (hvalues : valuesAt keys members = [write a]) :
    (required keys read : Record (.object members) α).Gives a := by
  obtain ⟨part, hpart⟩ := h.of_required
  exact gives_required hvalues (hread part a hpart)

/-- A field that has a value for its absence is read from its written form if that value is, too. -/
theorem CanGive.again_defaulted {absent : α}
    (h : (defaulted keys absent read : Record whole α).CanGive a)
    (habsent : read (write absent) = .ok absent)
    (hread : ∀ part : Part whole, ReadsBack read write part.1)
    (hvalues : valuesAt keys members = [write a]) :
    (defaulted keys absent read : Record (.object members) α).Gives a := by
  rcases CanGive.of_field h with h | ⟨part, hpart⟩
  · cases h
    exact gives_defaulted hvalues habsent
  · exact gives_defaulted hvalues (hread part a hpart)

/-- An optional field is read from its written form, which must not be `null`. -/
theorem CanGive.again_optional {o : Option α}
    (h : (optional keys read : Record whole (Option α)).CanGive o)
    (hread : ∀ part : Part whole, ReadsBack read write part.1)
    (hnull : ∀ part : Part whole, part.1 ≠ .null → ∀ a, read part.1 = .ok a → write a ≠ .null)
    (hvalues : valuesAt keys members = (o.map write).toList) :
    (optional keys read : Record (.object members) (Option α)).Gives o := by
  refine gives_optional hvalues fun a ha => ?_
  obtain ⟨part, hne, hpart⟩ := h.of_optional a ha
  exact ⟨hnull part hne a hpart, hread part a hpart⟩

end Again

end Record

/-! ### Values -/

theorem object_ne_null (fields : List (String × Option Json)) : object fields ≠ .null :=
  nofun

theorem array_ne_null (write : α → Json) (values : List α) : array write values ≠ .null :=
  nofun

theorem integer_eq_ok {v : Json} {n : Int} (h : integer v = .ok n) :
    -9223372036854775808 ≤ n ∧ n ≤ 9223372036854775807 := by
  unfold integer integerWithin at h
  split at h
  · split at h
    · rename_i hrange
      cases h
      exact hrange
    · cases h
  · cases h

theorem integer_readsBack (v : Json) : ReadsBack integer .integer v :=
  fun _ h => if_pos (integer_eq_ok h)

theorem anything_readsBack (v : Json) : ReadsBack anything id v := by
  intro a h
  cases h
  exact congrArg Except.ok v.canonical_canonical

theorem anything_ne_null {v a : Json} (hv : v ≠ .null) (h : anything v = .ok a) : a ≠ .null := by
  cases h
  exact Json.canonical_ne_null hv

/-- A list was read item by item. -/
theorem list_eq_ok {read : Json → Decoded α} {v : Json} {as : List α} (h : list read v = .ok as) :
    ∀ a ∈ as, ∃ part : Part v, read part.1 = .ok a := by
  obtain ⟨items, _, h⟩ := bind_eq_ok.1 h
  intro a ha
  obtain ⟨part, _, hpart⟩ := exists_left_of_forall₂ (mapM_eq_ok_iff.1 h) a ha
  exact ⟨part, hpart⟩

/-- A list is read back if its items are. -/
theorem list_readsBack {read : Json → Decoded α} {write : α → Json} {v : Json}
    (hread : ∀ part : Part v, ReadsBack read write part.1) :
    ReadsBack (list read) (array write) v := by
  intro as h
  unfold array
  rw [list_array, mapM_eq_ok_iff, List.forall₂_map_left_iff, List.forall₂_same]
  intro a ha
  obtain ⟨part, hpart⟩ := list_eq_ok h a ha
  exact hread part a hpart

/-- Values by key are read back, in the same order, if each of them is. -/
theorem dictionary_readsBack {read : Json → Decoded α} {write : α → Json}
    (hread : ∀ v, ReadsBack read write v) (v : Json) :
    ReadsBack (dictionary read) (fun values => .object (values.map fun m => (m.1, write m.2))) v := by
  intro values h
  cases v with
  | object members =>
    obtain ⟨given, hgiven, h⟩ := bind_eq_ok.1 h
    cases h
    have hmembers : ∀ m ∈ given, read (write m.2) = .ok m.2 := by
      intro m hm
      obtain ⟨⟨key, v⟩, _, hvalue⟩ := exists_left_of_forall₂ (mapM_eq_ok_iff.1 hgiven) m hm
      obtain ⟨a, ha, hvalue⟩ := bind_eq_ok.1 hvalue
      cases hvalue
      exact hread v a ha
    -- what is written is sorted already, so sorting it again changes nothing
    have hsorted : (((Json.sortMembers given).map fun m => (m.1, write m.2)).mapM fun m => do
        let a ← read m.2
        return (m.1, a)) = Except.ok (Json.sortMembers given) := by
      rw [mapM_eq_ok_iff, List.forall₂_map_left_iff, List.forall₂_same]
      intro m hm
      rw [hmembers m (Json.mem_of_mem_sortMembers hm)]
      rfl
    show (_ >>= fun values => Except.ok (Json.sortMembers values)) = _
    rw [hsorted, ok_bind, Json.sortMembers_sortMembers]
  | _ => cases h

end EnergyFormula.Document
