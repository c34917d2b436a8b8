import EnergyFormula.Proofs.Location.Pairs
import EnergyFormula.Proofs.Validation.Acceptance
import EnergyFormula.Proofs.Validation.Defects

/-!
# Conflicts between slices

The report of a location names every conflict between its slices, whatever else is wrong with them
(`LocationDocument.namesConflicts_validate`): each slice has a report of its own, with one error for
each other slice that it has an instant in common with, and with one error if an earlier slice has
its id.

* `conflicts_eq_sweep`: the slices with two well-formed bounds are swept by their own places, so
  that a slice without them shifts nothing.
* `mem_conflicts_iff`, `pairwise_conflicts`: each pair of slices that meet is named, and once.
* `SliceDocument.findsOnly_check`: what is wrong with a slice by itself is reported neither as an
  overlap nor in the words for a repeated id.
-/

namespace EnergyFormula

variable {slices : List SliceDocument} {i j : Nat}

/-! ### Overlapping slices -/

/-- The period between the bounds of the slice at a place, if both are well-formed. -/
def windowAt? (slices : List SliceDocument) (index : Nat) : Option Period :=
  slices[index]? >>= SliceDocument.window?

/-- Two slices have well-formed bounds, and an instant in common. -/
def SlicesMeet (slices : List SliceDocument) (i j : Nat) : Prop :=
  ∃ p q, windowAt? slices i = some p ∧ windowAt? slices j = some q ∧ p.Meets q

theorem SlicesMeet.symm (h : SlicesMeet slices i j) : SlicesMeet slices j i := by
  obtain ⟨p, q, hi, hj, hmeets⟩ := h
  exact ⟨q, p, hj, hi, hmeets.symm⟩

/-- The places of two slices in the order of their starts, those that start together in the order
of the document. -/
def startOrder (slices : List SliceDocument) (i j : Nat) : Nat × Nat :=
  match windowAt? slices i, windowAt? slices j with
  | some p, some q => if (PlacedPeriod.mk j q).Before ⟨i, p⟩ then (j, i) else (i, j)
  | _, _ => (i, j)

/-- The finding of a slice that overlaps another one. -/
def overlapFinding (slices : List SliceDocument) (index other : Nat) : Finding :=
  let (first, second) := startOrder slices index other
  ⟨slicePath index, .location (.sliceOverlap (labelAt slices first) (labelAt slices second))⟩

/-! ### The sweep over the slices -/

theorem mem_boundedSlices_iff {a : PlacedPeriod} :
    a ∈ boundedSlices slices ↔ windowAt? slices a.place = some a.period := by
  rw [boundedSlices, List.mem_filterMap, windowAt?]
  constructor
  · rintro ⟨⟨d, index⟩, hmem, ha⟩
    obtain ⟨p, hp, rfl⟩ := Option.map_eq_some_iff.1 ha
    exact Option.bind_eq_some_iff.2 ⟨d, List.mem_zipIdx_iff_getElem?.1 hmem, hp⟩
  · intro h
    obtain ⟨d, hd, hp⟩ := Option.bind_eq_some_iff.1 h
    exact ⟨(d, a.place), List.mem_zipIdx_iff_getElem?.2 hd, Option.map_eq_some_iff.2 ⟨_, hp, rfl⟩⟩

theorem inPlaceOrder_boundedSlices (slices : List SliceDocument) :
    InPlaceOrder (boundedSlices slices) := by
  refine List.pairwise_filterMap.2 (List.pairwise_iff_getElem.2 fun i j hi hj hij a ha b hb => ?_)
  rw [List.getElem_zipIdx] at ha hb
  obtain ⟨p, _, rfl⟩ := Option.map_eq_some_iff.1 ha
  obtain ⟨q, _, rfl⟩ := Option.map_eq_some_iff.1 hb
  dsimp only
  omega

/-- The place in the document of a slice, by its place among those with two bounds. -/
def boundedPlace (slices : List SliceDocument) (n : Nat) : Nat :=
  ((boundedSlices slices)[n]?.map PlacedPeriod.place).getD n

/-- The slices are swept by their places in the document. -/
theorem relabel_placed (slices : List SliceDocument) :
    (placed ((boundedSlices slices).map PlacedPeriod.period)).map
        (.relabel (boundedPlace slices)) = boundedSlices slices := by
  refine List.ext_getElem? fun n => ?_
  rw [placed, List.getElem?_map, List.getElem?_mapIdx, List.getElem?_map]
  cases h : (boundedSlices slices)[n]? with
  | none => rfl
  | some a => simp [PlacedPeriod.relabel, boundedPlace, h]

/-- Slices without two bounds are left out of the sweep, but shift nothing in it. -/
theorem conflicts_eq_sweep (slices : List SliceDocument) :
    conflicts slices = sweep (swept (boundedSlices slices)) := by
  have hplaces : conflicts slices =
      (overlappingPairs ((boundedSlices slices).map PlacedPeriod.period)).map
        (Prod.map (boundedPlace slices) (boundedPlace slices)) := by
    -- a pair that is named is one of slices that are there
    rw [← List.filterMap_eq_map]
    refine List.filterMap_congr fun x hx => ?_
    obtain ⟨hfst, hsnd⟩ := lt_length_of_mem_overlappingPairs hx
    rw [List.length_map] at hfst hsnd
    obtain ⟨a, b⟩ := x
    simp [boundedPlace, List.getElem?_eq_getElem hfst, List.getElem?_eq_getElem hsnd]
  rw [hplaces, overlappingPairs, byStart_eq_swept, ← sweep_relabel, ← swept_relabel,
    relabel_placed]

/-- The conflicts are the pairs of slices with an instant in common. -/
theorem mem_conflicts_iff : (i, j) ∈ conflicts slices ↔
    i ≠ j ∧ SlicesMeet slices i j ∧ startOrder slices i j = (i, j) := by
  rw [conflicts_eq_sweep, mem_sweep_swept_iff (inPlaceOrder_boundedSlices slices)]
  simp only [mem_boundedSlices_iff]
  constructor
  · rintro ⟨⟨i, p⟩, ha, ⟨j, q⟩, hb, rfl, rfl, hbefore, hmeets⟩
    refine ⟨?_, ⟨p, q, ha, hb, hmeets⟩, ?_⟩
    · dsimp only
      rintro rfl
      cases ha.symm.trans hb
      exact hbefore.asymm hbefore
    · dsimp only at ha hb
      simp only [startOrder, ha, hb]
      exact if_neg hbefore.asymm
  · rintro ⟨hne, ⟨p, q, hi, hj, hmeets⟩, horder⟩
    refine ⟨⟨i, p⟩, hi, ⟨j, q⟩, hj, rfl, rfl, ?_, hmeets⟩
    simp only [startOrder, hi, hj] at horder
    refine (PlacedPeriod.before_or_before hne).resolve_right fun hbefore => ?_
    rw [if_pos hbefore] at horder
    exact hne (congrArg Prod.snd horder)

/-- Two slices are in one order, however they are named. -/
theorem startOrder_comm (hne : i ≠ j) (h : SlicesMeet slices i j) :
    startOrder slices j i = startOrder slices i j := by
  obtain ⟨p, q, hi, hj, _⟩ := h
  simp only [startOrder, hi, hj]
  rcases PlacedPeriod.before_or_before (a := ⟨i, p⟩) (b := ⟨j, q⟩) hne with h | h
  · rw [if_pos h, if_neg h.asymm]
  · rw [if_neg h.asymm, if_pos h]

theorem startOrder_eq_or (slices : List SliceDocument) (i j : Nat) :
    startOrder slices i j = (i, j) ∨ startOrder slices i j = (j, i) := by
  unfold startOrder
  split
  · split
    · exact .inr rfl
    · exact .inl rfl
  · exact .inl rfl

/-- No two conflicts are of the same slices. -/
theorem pairwise_conflicts (slices : List SliceDocument) :
    (conflicts slices).Pairwise fun x y => x ≠ y ∧ x ≠ y.swap := by
  rw [conflicts_eq_sweep]
  exact pairwise_sweep (nodup_place_swept (inPlaceOrder_boundedSlices slices))

/-! ### The conflicts of one slice -/

/-- The slice that a conflict is with. -/
def partner? (index : Nat) (pair : Nat × Nat) : Option Nat :=
  if pair.1 = index then some pair.2 else if pair.2 = index then some pair.1 else none

/-- The slices that a slice is in conflict with. -/
def partners (slices : List SliceDocument) (index : Nat) : List Nat :=
  (conflicts slices).filterMap (partner? index)

theorem partner?_eq_some_iff {pair : Nat × Nat} (hne : pair.1 ≠ pair.2) :
    partner? i pair = some j ↔ pair = (i, j) ∨ pair = (j, i) := by
  obtain ⟨a, b⟩ := pair
  simp only [partner?, Prod.mk.injEq]
  grind

/-- A slice is in conflict with each other slice that it has an instant in common with. -/
theorem mem_partners_iff : j ∈ partners slices i ↔ j ≠ i ∧ SlicesMeet slices i j := by
  rw [partners, List.mem_filterMap]
  constructor
  · rintro ⟨⟨a, b⟩, hmem, hpartner⟩
    obtain ⟨hne, hmeet, _⟩ := mem_conflicts_iff.1 hmem
    rcases (partner?_eq_some_iff hne).1 hpartner with heq | heq
    · cases heq
      exact ⟨hne.symm, hmeet⟩
    · cases heq
      exact ⟨hne, hmeet.symm⟩
  · rintro ⟨hne, hmeet⟩
    -- the conflict is named in the order of the starts
    rcases startOrder_eq_or slices i j with horder | horder
    · exact ⟨(i, j), mem_conflicts_iff.2 ⟨hne.symm, hmeet, horder⟩,
        (partner?_eq_some_iff hne.symm).2 (.inl rfl)⟩
    · rw [← startOrder_comm hne.symm hmeet] at horder
      exact ⟨(j, i), mem_conflicts_iff.2 ⟨hne, hmeet.symm, horder⟩,
        (partner?_eq_some_iff hne).2 (.inr rfl)⟩

/-- It is in conflict with none of them twice. -/
theorem nodup_partners (slices : List SliceDocument) (index : Nat) :
    (partners slices index).Nodup := by
  refine List.pairwise_filterMap.2 ((pairwise_conflicts slices).imp_of_mem ?_)
  intro x y hx hy hxy j hj k hk heq
  have hxne := (mem_conflicts_iff.1 hx).1
  have hyne := (mem_conflicts_iff.1 hy).1
  subst heq
  rcases (partner?_eq_some_iff hxne).1 hj with rfl | rfl <;>
    rcases (partner?_eq_some_iff hyne).1 hk with rfl | rfl
  · exact hxy.1 rfl
  · exact hxy.2 rfl
  · exact hxy.2 rfl
  · exact hxy.1 rfl

/-- A slice has one overlap finding for each slice that it is in conflict with. -/
theorem overlapFindings_eq_map (slices : List SliceDocument) (index : Nat) :
    overlapFindings slices index = (partners slices index).map (overlapFinding slices index) := by
  rw [partners, List.map_filterMap, overlapFindings]
  refine List.filterMap_congr fun ⟨a, b⟩ hmem => ?_
  obtain ⟨hne, hmeet, horder⟩ := mem_conflicts_iff.1 hmem
  by_cases ha : a = index
  · subst ha
    simp [partner?, overlapFinding, horder]
  · by_cases hb : b = index
    · subst hb
      simp [partner?, overlapFinding, startOrder_comm hne hmeet, horder, hne]
    · simp [partner?, ha, hb]

/-! ### Repeated ids -/

/-- An earlier slice has the id of the slice at a place. -/
def RepeatsId (slices : List SliceDocument) (index : Nat) (id : Int) : Prop :=
  (∃ d, slices[index]? = some d ∧ d.id = some id) ∧
    ∃ k < index, ∃ d, slices[k]? = some d ∧ d.id = some id

/-- The finding of a slice with the id of an earlier one. -/
def repeatFinding (index : Nat) (id : Int) : Finding :=
  (Finding.inField "timeSliceId" (.duplicateSlice id)).within (slicePath index)

/-- A slice whose id an earlier slice has already has one finding of it. -/
theorem duplicateFindings_of_repeats {id : Int} (h : RepeatsId slices i id) :
    duplicateFindings slices i = [repeatFinding i id] := by
  obtain ⟨⟨d, hd, hid⟩, hearlier⟩ := h
  rw [duplicateFindings, hd, Option.bind_eq_bind, Option.bind_some, hid]
  exact if_pos (any_take_iff.2 hearlier)

/-- Any other slice has none. -/
theorem duplicateFindings_of_not_repeats (h : ∀ id, ¬ RepeatsId slices i id) :
    duplicateFindings slices i = [] := by
  unfold duplicateFindings
  split
  · rename_i id hid
    obtain ⟨d, hd, hid⟩ := Option.bind_eq_some_iff.1 hid
    exact if_neg fun hany => h id ⟨⟨d, hd, hid⟩, any_take_iff.1 hany⟩
  · rfl

/-! ### Defects of a slice by itself -/

/-- The text begins with the character. -/
def BeginsWith (c : Char) (s : String) : Prop :=
  s.toList.head? = some c

theorem BeginsWith.append {c : Char} {s : String} (h : BeginsWith c s) (t : String) :
    BeginsWith c (s ++ t) := by
  rw [BeginsWith, String.toList_append, List.head?_append, h]
  rfl

theorem BeginsWith.unique {c c' : Char} {s : String} (h : BeginsWith c s) (h' : BeginsWith c' s) :
    c = c' :=
  Option.some.inj (h.symm.trans h')

namespace Defect

/-- The defect is one of a slice by itself.  A field that is missing has a name that cannot be
taken for the words about a repeated id. -/
def IsOwn : Defect → Prop
  | duplicateSlice _ => False
  | location (.sliceOverlap _ _) => False
  | missingOperand field => ∃ c, BeginsWith c field ∧ c ≠ 'D'
  | missingIdentifier field => ∃ c, BeginsWith c field ∧ c ≠ 'D'
  | missingTimestamp field => ∃ c, BeginsWith c field ∧ c ≠ 'D'
  | _ => True

/-- It is not reported as an overlap. -/
theorem IsOwn.code_ne {e : Defect} (h : e.IsOwn) : e.code ≠ .overlappingTimeSlice := by
  cases e with
  | malformed e =>
    change MalformedIdentifier.code e ≠ _
    unfold MalformedIdentifier.code
    split <;> decide
  | location d =>
    cases d with
    | sliceOverlap _ _ => exact h.elim
    | _ => nofun
  | _ => nofun

theorem beginsWith_presence (alternatives : String) (present : List String) :
    BeginsWith 'E' (presence alternatives present) :=
  have h : BeginsWith 'E' "Exactly one of " := rfl
  ((((h.append _).append _).append _).append _).append _

/-- It is not reported in the words for a repeated id. -/
theorem IsOwn.beginsWith {e : Defect} (h : e.IsOwn) : ∃ c, BeginsWith c e.message ∧ c ≠ 'D' := by
  cases e with
  | depthExceeded limit =>
    have hword : BeginsWith 'F' "Formula nesting exceeds the limit of " := rfl
    exact ⟨_, hword.append _, by decide⟩
  | formulaUnion present => exact ⟨_, beginsWith_presence _ present, by decide⟩
  | operandUnion present => exact ⟨_, beginsWith_presence _ present, by decide⟩
  | emptyOperands operator =>
    have hword : BeginsWith '\'' "'" := rfl
    exact ⟨_, (hword.append operator).append _, by decide⟩
  | missingOperand field | missingIdentifier field | missingTimestamp field =>
    obtain ⟨c, hfield, hc⟩ := h
    exact ⟨c, hfield.append _, hc⟩
  | missingFormula => exact ⟨'c', rfl, by decide⟩
  | unknownQuality text =>
    have hword : BeginsWith 'U' "Unknown time slice quality '" := rfl
    exact ⟨_, (hword.append text).append _, by decide⟩
  | unknownDirection text =>
    have hword : BeginsWith 'U' "Unknown energy direction '" := rfl
    exact ⟨_, (hword.append text).append _, by decide⟩
  | malformed e =>
    have hword : BeginsWith 'M' "Malformed " := rfl
    exact ⟨_, (((((hword.append _).append _).append _).append _).append _), by decide⟩
  | timestamp e =>
    have hword : BeginsWith 'M' "Malformed timestamp '" := rfl
    exact ⟨_, ((hword.append _).append _).append _, by decide⟩
  | location d =>
    cases d with
    | union presence => cases presence <;> exact ⟨'F', rfl, by decide⟩
    | noTimeSlices => exact ⟨'F', rfl, by decide⟩
    | slicePeriod id validFrom validTo =>
      have hword : BeginsWith 'T' "Time slice " := rfl
      exact ⟨_, ((((hword.append _).append _).append _).append _).append _, by decide⟩
    | sliceOverlap first second => exact h.elim
  | duplicateSlice id => exact h.elim

end Defect

theorem MeterDocument.HasDefect.isOwn {d : MeterDocument} {p : Path} {e : Defect}
    (h : d.HasDefect p e) : e.IsOwn := by
  cases h with
  | missing _ => exact ⟨'m', rfl, by decide⟩
  | identifier _ _ => trivial
  | direction _ _ => trivial
  | share _ _ _ => trivial

mutual

/-- The defects of a formula are none of several slices. -/
theorem FormulaDocument.HasDefect.isOwn {limit : Nat} :
    ∀ {depth : Nat} {d : FormulaDocument} {p : Path} {e : Defect},
      FormulaDocument.HasDefect limit depth d p e → e.IsOwn
  | _, _, _, _, .deep _ => trivial
  | _, _, _, _, .union _ _ => trivial
  | _, _, _, _, .emptyRow _ _ => trivial
  | _, _, _, _, .row _ _ _ ho => ho.isOwn
  | _, _, _, _, .missingSide _ _ h => by
    rcases DifferenceDocument.mem_sides_iff.1 h with ⟨rfl, _⟩ | ⟨rfl, _⟩
    · exact ⟨'m', rfl, by decide⟩
    · exact ⟨'s', rfl, by decide⟩
  | _, _, _, _, .side _ _ _ ho => ho.isOwn
  | _, _, _, _, .single _ _ ho => ho.isOwn

theorem OperandDocument.HasDefect.isOwn {limit : Nat} :
    ∀ {depth : Nat} {o : OperandDocument} {p : Path} {e : Defect},
      OperandDocument.HasDefect limit depth o p e → e.IsOwn
  | _, _, _, _, .union _ => trivial
  | _, _, _, _, .meter _ hp => hp.isOwn
  | _, _, _, _, .constant _ _ => trivial
  | _, _, _, _, .formulaVariable _ _ => trivial
  | _, _, _, _, .nested _ hp => hp.isOwn

end

namespace SliceDocument

variable (d : SliceDocument)

theorem findsOnly_checkId : d.checkId.FindsOnly Defect.IsOwn := by
  unfold checkId
  split
  · exact Checked.findsOnly_valid _
  · exact Checked.findsOnly_fail ⟨'t', rfl, by decide⟩

theorem findsOnly_checkQuality : d.checkQuality.FindsOnly Defect.IsOwn := by
  unfold checkQuality
  split
  · exact Checked.findsOnly_fail ⟨'t', rfl, by decide⟩
  · split
    · exact Checked.findsOnly_valid _
    · exact Checked.findsOnly_fail trivial

theorem findsOnly_checkBound {field : String} (hfield : BeginsWith 'p' field)
    (bound : Option String) : (checkBound field bound).FindsOnly Defect.IsOwn := by
  unfold checkBound
  split
  · exact Checked.findsOnly_fail ⟨'p', hfield, by decide⟩
  · refine Checked.FindsOnly.within (fun f hf => ?_) _
    obtain ⟨e, _, rfl⟩ := Checked.mem_findings_ofExcept.1 hf
    trivial

theorem findsOnly_checkValidity (index : Nat) :
    (d.checkValidity index).FindsOnly Defect.IsOwn := by
  have hfrom : BeginsWith 'p' "periodOfUseFrom" := rfl
  have hto : BeginsWith 'p' "periodOfUseTo" := rfl
  refine (((findsOnly_checkBound hfrom _).map _).seq (findsOnly_checkBound hto _)).andThen
    fun p => ?_
  split
  · exact Checked.findsOnly_valid _
  · exact Checked.findsOnly_fail trivial

theorem findsOnly_checkFormula (maxDepth : Nat) :
    (d.checkFormula maxDepth).FindsOnly Defect.IsOwn := by
  unfold checkFormula
  split
  · refine Checked.FindsOnly.within (fun f hf => ?_) _
    exact (FormulaDocument.mem_check_iff.1 hf).isOwn
  · exact Checked.findsOnly_fail trivial

/-- What the check of a slice finds is wrong with the slice by itself. -/
theorem findsOnly_check (maxDepth index : Nat) :
    (d.check maxDepth index).FindsOnly Defect.IsOwn :=
  ((((d.findsOnly_checkId.map _).seq d.findsOnly_checkQuality).seq
    (d.findsOnly_checkValidity index)).seq (d.findsOnly_checkFormula maxDepth)).within _

end SliceDocument

/-! ### Reports -/

/-- The reported problem is that of a repeated id. -/
def ErrorInfo.IsRepeatedId (info : ErrorInfo) : Prop :=
  "Duplicate timeSliceId ".toList <+: info.message.toList

instance (info : ErrorInfo) : Decidable info.IsRepeatedId :=
  inferInstanceAs (Decidable (_ <+: _))

theorem ErrorInfo.not_isRepeatedId {info : ErrorInfo} {c : Char} (h : BeginsWith c info.message)
    (hc : c ≠ 'D') : ¬ info.IsRepeatedId := by
  rintro ⟨rest, hrest⟩
  have hd : BeginsWith 'D' info.message := by
    rw [BeginsWith, ← hrest]
    rfl
  exact hc (h.unique hd)

/-- The report of the slice at a place names its conflicts with the others. -/
structure SliceReport.NamesConflicts (r : SliceReport) (slices : List SliceDocument)
    (index : Nat) : Prop where
  sliceId : r.sliceId = (slices[index]? >>= SliceDocument.id)
  valid : r.valid = true ↔ r.errors = []
  /-- There is one overlap error for each other slice with an instant in common. -/
  overlaps : ∃ others : List Nat, others.Nodup ∧
    (∀ j, j ∈ others ↔ j ≠ index ∧ SlicesMeet slices index j) ∧
      (r.errors.filter fun e => e.code = .overlappingTimeSlice) =
        others.map fun j => (overlapFinding slices index j).info
  /-- There is one error if an earlier slice has the same id. -/
  repeated : ∀ id, RepeatsId slices index id →
    (r.errors.filter fun e => e.IsRepeatedId) = [(repeatFinding index id).info]
  distinct : (∀ id, ¬ RepeatsId slices index id) →
    (r.errors.filter fun e => e.IsRepeatedId) = []

theorem exists_of_mem_duplicateFindings {f : Finding} (h : f ∈ duplicateFindings slices i) :
    ∃ id, f = repeatFinding i id := by
  by_cases hrepeats : ∃ id, RepeatsId slices i id
  · obtain ⟨id, hid⟩ := hrepeats
    rw [duplicateFindings_of_repeats hid] at h
    exact ⟨id, List.mem_singleton.1 h⟩
  · rw [duplicateFindings_of_not_repeats fun id hid => hrepeats ⟨id, hid⟩] at h
    cases h

/-- Of the errors of a slice, those about overlaps are its overlap findings. -/
theorem filter_code_sliceFindings (d : SliceDocument) (maxDepth index : Nat) :
    (((sliceFindings slices maxDepth index d).map Finding.info).filter fun e =>
        e.code = .overlappingTimeSlice) =
      (overlapFindings slices index).map Finding.info := by
  rw [List.filter_map, sliceFindings, List.filter_append, List.filter_append,
    List.filter_eq_nil_iff.2, List.filter_eq_nil_iff.2, List.filter_eq_self.2]
  · rfl
  · rw [overlapFindings_eq_map]
    exact List.forall_mem_map.2 fun j _ => rfl
  · intro f hf hcode
    obtain ⟨id, rfl⟩ := exists_of_mem_duplicateFindings hf
    have hother : ErrorCode.malformedIdentifier ≠ .overlappingTimeSlice := by decide
    exact hother (of_decide_eq_true hcode)
  · intro f hf hcode
    exact (d.findsOnly_check maxDepth index f hf).code_ne (of_decide_eq_true hcode)

/-- Of the errors of a slice, those in the words for a repeated id are its duplicate findings. -/
theorem filter_isRepeatedId_sliceFindings (d : SliceDocument) (maxDepth index : Nat) :
    (((sliceFindings slices maxDepth index d).map Finding.info).filter fun e =>
        e.IsRepeatedId) =
      (duplicateFindings slices index).map Finding.info := by
  rw [List.filter_map, sliceFindings, List.filter_append, List.filter_append,
    List.filter_eq_nil_iff.2, List.filter_eq_self.2, List.filter_eq_nil_iff.2, List.append_nil]
  · rfl
  · rw [overlapFindings_eq_map]
    refine List.forall_mem_map.2 fun j _ hrepeated => ?_
    have hword : BeginsWith 'T' "Time slices " := rfl
    have hmessage : BeginsWith 'T' (overlapFinding slices index j).info.message :=
      (((hword.append _).append _).append _).append _
    exact ErrorInfo.not_isRepeatedId hmessage (by decide) (of_decide_eq_true hrepeated)
  · intro f hf
    obtain ⟨id, rfl⟩ := exists_of_mem_duplicateFindings hf
    refine decide_eq_true ?_
    exact ⟨(toString id).toList, String.toList_append.symm⟩
  · intro f hf hrepeated
    obtain ⟨c, hword, hc⟩ := (d.findsOnly_check maxDepth index f hf).beginsWith
    exact ErrorInfo.not_isRepeatedId hword hc (of_decide_eq_true hrepeated)

theorem SliceReport.namesConflicts_of {d : SliceDocument} (hd : slices[i]? = some d)
    (maxDepth : Nat) : (SliceReport.of d.id
      ((sliceFindings slices maxDepth i d).map Finding.info)).NamesConflicts slices i where
  sliceId := by
    rw [hd]
    rfl
  valid := List.isEmpty_iff
  overlaps := by
    refine ⟨partners slices i, nodup_partners slices i, fun j => mem_partners_iff, ?_⟩
    rw [SliceReport.of, filter_code_sliceFindings, overlapFindings_eq_map, List.map_map]
    rfl
  repeated id hid := by
    rw [SliceReport.of, filter_isRepeatedId_sliceFindings, duplicateFindings_of_repeats hid]
    rfl
  distinct hnot := by
    rw [SliceReport.of, filter_isRepeatedId_sliceFindings, duplicateFindings_of_not_repeats hnot]
    rfl

namespace LocationDocument

variable (d : LocationDocument) (maxDepth : Nat)

/-- The reports of the slices do not depend on what becomes of the location. -/
theorem slices_report_validate :
    (d.validate maxDepth).report.slices = d.sliceReports maxDepth := by
  by_cases h : d.Clean maxDepth
  · obtain ⟨l, _, hl⟩ := validate_of_clean h
    rw [hl]
  · rw [validate_of_not_clean h]

/-- Every slice of a location has a report in the order of the document, and every one of these
names the conflicts of its slice, each of which is named in the same words on both sides. -/
theorem namesConflicts_validate :
    (d.validate maxDepth).report.slices.length = d.givenSlices.length ∧
      (∀ (i : Nat) (r : SliceReport), (d.validate maxDepth).report.slices[i]? = some r →
        r.NamesConflicts d.givenSlices i) ∧
        ∀ i j, i ≠ j → SlicesMeet d.givenSlices i j →
          (overlapFinding d.givenSlices j i).defect =
            (overlapFinding d.givenSlices i j).defect := by
  rw [slices_report_validate]
  refine ⟨List.length_mapIdx, fun i r hr => ?_, fun i j hne hmeet => ?_⟩
  · rw [sliceReports, List.getElem?_mapIdx] at hr
    obtain ⟨s, hs, rfl⟩ := Option.map_eq_some_iff.1 hr
    exact SliceReport.namesConflicts_of hs maxDepth
  · simp only [overlapFinding, startOrder_comm hne hmeet]

/-- A broken slice between two that overlap, of which the second one repeats an id and is broken
too. -/
def brokenBetween : LocationDocument :=
  let slice (id : Int) (quality validFrom validTo : String) : SliceDocument :=
    { id := some id
      quality := some quality
      validFrom := some validFrom
      validTo := some validTo
      formula := some (Formula.operand (.constant .one)).document }
  ⟨some "57685676748", none, some
    [slice 1 "valid" "2024-01-01T00:00:00Z" "2024-03-01T00:00:00Z",
      slice 2 "valid" "2024-01-15T00:00:00Z" "tomorrow",
      slice 1 "unknown" "2024-02-01T00:00:00Z" "2024-04-01T00:00:00Z"]⟩

/-- Its last slice is in conflict with the first one, by its validity and by its id. -/
theorem namesConflicts_validate_brokenBetween :
    ∃ r, (brokenBetween.validate 32).report.slices[2]? = some r ∧
      (r.errors.filter fun e => e.code = .overlappingTimeSlice) =
        [⟨.overlappingTimeSlice, "Time slices 1 and 1 have overlapping validity periods",
          some "timeSlice[2]"⟩] ∧
        (r.errors.filter fun e => e.IsRepeatedId) =
          [⟨.malformedIdentifier, "Duplicate timeSliceId 1", some "timeSlice[2].timeSliceId"⟩] := by
  obtain ⟨hlength, hnames, _⟩ := brokenBetween.namesConflicts_validate 32
  have hlt : 2 < (brokenBetween.validate 32).report.slices.length := by
    rw [hlength]
    decide
  obtain ⟨others, hnodup, hmem, hoverlaps⟩ := (hnames 2 _ (List.getElem?_eq_getElem hlt)).overlaps
  have hfirst : SlicesMeet brokenBetween.givenSlices 2 0 :=
    ⟨⟨⟨1706745600, 0⟩, ⟨1711929600, 0⟩⟩, ⟨⟨1704067200, 0⟩, ⟨1709251200, 0⟩⟩, rfl, rfl,
      Period.meets_iff.2 (by decide)⟩
  have hsecond : ¬ SlicesMeet brokenBetween.givenSlices 2 1 := by
    rintro ⟨_, _, _, hnone, _⟩
    cases hnone
  have hothers : others = [0] := by
    refine List.perm_singleton.1
      ((List.perm_ext_iff_of_nodup hnodup (List.pairwise_singleton _ 0)).2 fun j => ?_)
    rw [hmem, List.mem_singleton]
    constructor
    · rintro ⟨hne, hmeet⟩
      match j with
      | 0 => rfl
      | 1 => exact absurd hmeet hsecond
      | 2 => exact absurd rfl hne
      | j + 3 =>
        obtain ⟨_, _, _, hnone, _⟩ := hmeet
        cases hnone
    · rintro rfl
      exact ⟨by decide, hfirst⟩
  refine ⟨_, List.getElem?_eq_getElem hlt, ?_, ?_⟩
  · rw [hoverlaps, hothers]
    rfl
  · exact (hnames 2 _ (List.getElem?_eq_getElem hlt)).repeated 1
      ⟨⟨_, rfl, rfl⟩, 0, by decide, _, rfl, rfl⟩

end LocationDocument

end EnergyFormula
