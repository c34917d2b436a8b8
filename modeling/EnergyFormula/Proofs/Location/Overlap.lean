import EnergyFormula.Location.Overlap

/-!
# What the sweep finds

The sweep over periods in the order of their starts names exactly the pairs that overlap
(`mem_sweep_iff`): once a period starts after the end of the first one, so do all that follow it.
Periods that are not empty are therefore apart from each other exactly if no pair is named
(`overlappingPairs_eq_nil_iff`).
-/

namespace EnergyFormula

/-! ### Periods that are apart -/

namespace Period

/-- One of the two periods ends before the other one starts, or just then. -/
def Apart (p q : Period) : Prop :=
  p.stop ≤ q.start ∨ q.stop ≤ p.start

theorem Apart.symm {p q : Period} (h : p.Apart q) : q.Apart p :=
  Or.symm h

/-- Periods that are apart have no instant in common. -/
theorem Apart.not_contains {p q : Period} (h : p.Apart q) {t : Instant}
    (hp : p.contains t = true) : q.contains t = false := by
  simp only [contains, Bool.and_eq_true, decide_eq_true_eq, Bool.and_eq_false_iff,
    decide_eq_false_iff_not, Instant.le_def, Instant.lt_def] at hp ⊢
  rcases h with h | h <;> rw [Instant.le_def] at h <;> omega

end Period

/-! ### The sweep -/

/-- The periods are in the order of their starts. -/
def InStartOrder (row : List PlacedPeriod) : Prop :=
  row.Pairwise fun a b => a.period.start ≤ b.period.start

/-- Among periods in the order of their starts, those that start before an instant come first. -/
theorem mem_takeWhile_start {row : List PlacedPeriod} (h : InStartOrder row) {t : Instant}
    {b : PlacedPeriod} :
    b ∈ row.takeWhile (fun b => b.period.start < t) ↔ b ∈ row ∧ b.period.start < t := by
  induction row with
  | nil => simp
  | cons first rest ih =>
    obtain ⟨hfirst, hrest⟩ := List.pairwise_cons.1 h
    rw [List.takeWhile_cons]
    split
    · rename_i hlt
      rw [decide_eq_true_eq] at hlt
      rw [List.mem_cons, ih hrest, List.mem_cons]
      constructor
      · rintro (rfl | ⟨hmem, hb⟩)
        · exact ⟨.inl rfl, hlt⟩
        · exact ⟨.inr hmem, hb⟩
      · rintro ⟨rfl | hmem, hb⟩
        · exact .inl rfl
        · exact .inr ⟨hmem, hb⟩
    · rename_i hge
      rw [decide_eq_true_eq] at hge
      -- the first one starts too late, and so do the others
      refine ⟨fun hmem => absurd hmem List.not_mem_nil, ?_⟩
      rintro ⟨hmem, hb⟩
      rcases List.mem_cons.1 hmem with rfl | hmem
      · exact absurd hb hge
      · have hle := hfirst b hmem
        rw [Instant.lt_def] at hb hge
        rw [Instant.le_def] at hle
        omega

/-- The sweep names the pairs of periods of which the second one starts before the first one
ends. -/
theorem mem_sweep_iff {row : List PlacedPeriod} (h : InStartOrder row) {i j : Nat} :
    (i, j) ∈ sweep row ↔
      ∃ a b, [a, b].Sublist row ∧ a.place = i ∧ b.place = j ∧
        b.period.start < a.period.stop := by
  induction row with
  | nil => simp [sweep]
  | cons first rest ih =>
    obtain ⟨_, hrest⟩ := List.pairwise_cons.1 h
    rw [sweep, List.mem_append, ih hrest, List.mem_map]
    constructor
    · -- a pair with the first period, or one of later periods
      rintro (⟨b, hb, hij⟩ | ⟨a, b, hsub, hij⟩)
      · obtain ⟨hmem, hlt⟩ := (mem_takeWhile_start hrest).1 hb
        cases hij
        exact ⟨first, b, (List.singleton_sublist.2 hmem).cons_cons first, rfl, rfl, hlt⟩
      · exact ⟨a, b, hsub.cons first, hij⟩
    · rintro ⟨a, b, hsub, rfl, rfl, hlt⟩
      cases hsub with
      | cons _ hsub => exact .inr ⟨a, b, hsub, rfl, rfl, hlt⟩
      | cons_cons _ hsub =>
        refine .inl ⟨b, ?_, rfl⟩
        exact (mem_takeWhile_start hrest).2 ⟨List.singleton_sublist.1 hsub, hlt⟩

/-! ### Periods of a list -/

/-- The periods of a list with their places. -/
def placed (periods : List Period) : List PlacedPeriod :=
  periods.mapIdx fun i p => ⟨i, p⟩

theorem map_period_placed (periods : List Period) :
    (placed periods).map PlacedPeriod.period = periods := by
  refine List.ext_getElem? fun i => ?_
  rw [placed, List.getElem?_map, List.getElem?_mapIdx, Option.map_map]
  exact Option.map_id_apply

theorem mem_placed_iff {periods : List Period} {a : PlacedPeriod} :
    a ∈ placed periods ↔ periods[a.place]? = some a.period := by
  rw [placed, List.mem_mapIdx]
  constructor
  · rintro ⟨i, hi, rfl⟩
    exact List.getElem?_eq_getElem hi
  · intro h
    obtain ⟨hi, ha⟩ := List.getElem?_eq_some_iff.1 h
    exact ⟨a.place, hi, by rw [ha]⟩

theorem byStart_perm (periods : List Period) :
    (byStart periods).Perm
      ((placed periods).filter fun a => a.period.start < a.period.stop) :=
  List.mergeSort_perm _ _

theorem inStartOrder_byStart (periods : List Period) : InStartOrder (byStart periods) := by
  let before (a b : PlacedPeriod) : Bool := a.period.start ≤ b.period.start
  have h := @List.pairwise_mergeSort _ before
    (fun a b c => by simp only [before, decide_eq_true_eq, Instant.le_def]; omega)
    (fun a b => by simp only [before, Bool.or_eq_true, decide_eq_true_eq, Instant.le_def]; omega)
    ((placed periods).filter fun a => a.period.start < a.period.stop)
  exact h.imp fun hab => of_decide_eq_true hab

theorem mem_byStart_iff {periods : List Period} {a : PlacedPeriod} :
    a ∈ byStart periods ↔
      periods[a.place]? = some a.period ∧ a.period.start < a.period.stop := by
  rw [(byStart_perm periods).mem_iff, List.mem_filter, mem_placed_iff, decide_eq_true_eq]

/-- A pair that is named is a pair of places of the list. -/
theorem lt_length_of_mem_overlappingPairs {periods : List Period} {i j : Nat}
    (h : (i, j) ∈ overlappingPairs periods) : i < periods.length ∧ j < periods.length := by
  obtain ⟨a, b, hsub, rfl, rfl, _⟩ := (mem_sweep_iff (inStartOrder_byStart periods)).1 h
  have ha := hsub.subset List.mem_cons_self
  have hb := hsub.subset (List.mem_cons_of_mem a List.mem_cons_self)
  obtain ⟨ha, _⟩ := List.getElem?_eq_some_iff.1 (mem_byStart_iff.1 ha).1
  obtain ⟨hb, _⟩ := List.getElem?_eq_some_iff.1 (mem_byStart_iff.1 hb).1
  exact ⟨ha, hb⟩

/-- Anything that is made of each pair that is named is nothing only if no pair is. -/
theorem filterMap_overlappingPairs_eq_nil_iff {α : Type} {periods : List Period}
    {make : Nat × Nat → Option α}
    (h : ∀ i j, i < periods.length → j < periods.length → (make (i, j)).isSome = true) :
    (overlappingPairs periods).filterMap make = [] ↔ overlappingPairs periods = [] := by
  rw [List.filterMap_eq_nil_iff, List.eq_nil_iff_forall_not_mem]
  refine forall_congr' fun ⟨i, j⟩ => ?_
  constructor
  · intro hnone hmem
    have hlt := lt_length_of_mem_overlappingPairs hmem
    have hsome := h i j hlt.1 hlt.2
    rw [hnone hmem] at hsome
    cases hsome
  · intro hnot hmem
    exact absurd hmem hnot

/-- A period that is not empty is apart from one that starts no earlier exactly if it ends before
that. -/
theorem Period.apart_iff_of_start_le {p q : Period} (hstart : p.start ≤ q.start)
    (hq : q.start < q.stop) : p.Apart q ↔ ¬ q.start < p.stop := by
  rw [Instant.le_def] at hstart
  rw [Instant.lt_def] at hq
  simp only [Period.Apart, Instant.le_def, Instant.lt_def]
  omega

/-- Periods that are not empty are apart from each other exactly if no pair of them is named. -/
theorem overlappingPairs_eq_nil_iff {periods : List Period}
    (h : ∀ p ∈ periods, p.start < p.stop) :
    overlappingPairs periods = [] ↔ periods.Pairwise Period.Apart := by
  have hsorted := inStartOrder_byStart periods
  have hnonempty : ∀ a ∈ byStart periods, a.period.start < a.period.stop :=
    fun a ha => (mem_byStart_iff.1 ha).2
  -- no period is left out, as none of them is empty
  have hperm : ((byStart periods).map PlacedPeriod.period).Perm periods := by
    have hfilter : (placed periods).filter (fun a => a.period.start < a.period.stop)
        = placed periods := by
      refine List.filter_eq_self.2 fun a ha => decide_eq_true (h _ ?_)
      exact List.mem_of_getElem? (mem_placed_iff.1 ha)
    have := (byStart_perm periods).map PlacedPeriod.period
    rwa [hfilter, map_period_placed] at this
  calc overlappingPairs periods = []
      ↔ (byStart periods).Pairwise fun a b => ¬ b.period.start < a.period.stop := by
        rw [overlappingPairs, List.eq_nil_iff_forall_not_mem, List.pairwise_iff_forall_sublist]
        constructor
        · intro hnone a b hsub hlt
          exact hnone _ ((mem_sweep_iff hsorted).2 ⟨a, b, hsub, rfl, rfl, hlt⟩)
        · rintro hall ⟨i, j⟩ hij
          obtain ⟨a, b, hsub, _, _, hlt⟩ := (mem_sweep_iff hsorted).1 hij
          exact hall hsub hlt
    _ ↔ (byStart periods).Pairwise fun a b => a.period.Apart b.period := by
        rw [List.pairwise_iff_forall_sublist, List.pairwise_iff_forall_sublist]
        refine forall₂_congr fun a b => forall_congr' fun hsub => ?_
        have hb := hsub.subset (List.mem_cons_of_mem a List.mem_cons_self)
        have hstart := List.pairwise_iff_forall_sublist.1 hsorted hsub
        exact (Period.apart_iff_of_start_le hstart (hnonempty b hb)).symm
    _ ↔ ((byStart periods).map PlacedPeriod.period).Pairwise Period.Apart :=
        List.pairwise_map.symm
    _ ↔ periods.Pairwise Period.Apart := hperm.pairwise_iff fun hab => hab.symm

end EnergyFormula
