import EnergyFormula.Proofs.Location.Overlap
import EnergyFormula.Proofs.Time.Parts

/-!
# Each pair of periods once

A row of placed periods is swept in the order of the starts, in which periods that start together
keep their order.

* `pairwise_swept`: the order of a sweep, as a strict one.
* `mem_sweep_swept_iff`: the sweep names two periods of the row exactly if they have an instant in
  common, the one that is swept first in front.
* `pairwise_sweep`: it names two periods once only, whichever is in front.
* `sweep_relabel`: the places are labels, and other places for the same periods are other labels for
  the same pairs.
* `namesOverlaps_overlappingPairs`: of any list of periods, each two that have an instant in common
  are named, once, and no others.
-/

namespace EnergyFormula

/-! ### Periods with an instant in common -/

namespace Period

variable {p q : Period}

/-- The two periods have an instant in common. -/
def Meets (p q : Period) : Prop :=
  ∃ t, p.contains t = true ∧ q.contains t = true

/-- Two periods have an instant in common exactly if neither is empty and each starts before the
other one ends. -/
theorem meets_iff :
    p.Meets q ↔ p.start < p.stop ∧ q.start < q.stop ∧ p.overlaps q = true := by
  simp only [Meets, overlaps, contains, Bool.and_eq_true, decide_eq_true_eq, Instant.le_def,
    Instant.lt_def]
  constructor
  · rintro ⟨t, hp, hq⟩
    omega
  · -- the later of the starts is in both
    rintro ⟨hp, hq, hlt⟩
    refine ⟨p.start.latest q.start, ?_⟩
    rw [Instant.rank_latest]
    omega

theorem Meets.symm (h : p.Meets q) : q.Meets p := by
  obtain ⟨t, hp, hq⟩ := h
  exact ⟨t, hq, hp⟩

instance (p q : Period) : Decidable (p.Meets q) :=
  decidable_of_iff _ meets_iff.symm

/-- Of two periods in the order of their starts, the later one starts before the other one ends. -/
theorem meets_iff_of_start_le (hstart : p.start ≤ q.start) :
    p.Meets q ↔ p.start < p.stop ∧ q.start < q.stop ∧ q.start < p.stop := by
  rw [Instant.le_def] at hstart
  simp only [meets_iff, overlaps, Bool.and_eq_true, decide_eq_true_eq, Instant.lt_def]
  omega

end Period

/-! ### The order of a sweep -/

namespace PlacedPeriod

/-- The period starts first, or together with the other one and has the first place. -/
def Before (a b : PlacedPeriod) : Prop :=
  a.period.start < b.period.start ∨
    (a.period.start.rank = b.period.start.rank ∧ a.place < b.place)

instance (a b : PlacedPeriod) : Decidable (a.Before b) :=
  inferInstanceAs (Decidable (_ ∨ _))

variable {a b : PlacedPeriod}

theorem Before.start_le (h : a.Before b) : a.period.start ≤ b.period.start := by
  rw [Before, Instant.lt_def] at h
  rw [Instant.le_def]
  omega

theorem Before.asymm (h : a.Before b) : ¬ b.Before a := by
  rw [Before, Instant.lt_def] at h ⊢
  omega

/-- Of two periods at different places one comes before the other. -/
theorem before_or_before (h : a.place ≠ b.place) : a.Before b ∨ b.Before a := by
  rw [Before, Before, Instant.lt_def, Instant.lt_def]
  omega

end PlacedPeriod

/-- The places of a row are those of a list, one after the other. -/
def InPlaceOrder (row : List PlacedPeriod) : Prop :=
  row.Pairwise fun a b => a.place < b.place

/-- The period starts no later than the other one. -/
def startsFirst (a b : PlacedPeriod) : Bool :=
  a.period.start ≤ b.period.start

theorem startsFirst_iff {a b : PlacedPeriod} :
    startsFirst a b = true ↔ a.period.start.rank ≤ b.period.start.rank :=
  decide_eq_true_iff.trans Instant.le_def

/-- What is swept of a row: the periods that are not empty, in the order of their starts. -/
def swept (row : List PlacedPeriod) : List PlacedPeriod :=
  (row.filter fun a => a.period.start < a.period.stop).mergeSort startsFirst

theorem byStart_eq_swept (periods : List Period) : byStart periods = swept (placed periods) :=
  rfl

section Order

variable {row : List PlacedPeriod}

theorem mem_swept_iff {a : PlacedPeriod} :
    a ∈ swept row ↔ a ∈ row ∧ a.period.start < a.period.stop := by
  rw [swept, List.mem_mergeSort, List.mem_filter, decide_eq_true_eq]

/-- Sorting by the starts is stable: periods that start together keep the order of the row. -/
theorem pairwise_mergeSort_startsFirst (h : InPlaceOrder row) :
    (row.mergeSort startsFirst).Pairwise PlacedPeriod.Before := by
  have htrans : ∀ a b c, startsFirst a b = true → startsFirst b c = true →
      startsFirst a c = true := by
    intro a b c
    simp only [startsFirst_iff]
    omega
  have htotal : ∀ a b, (startsFirst a b || startsFirst b a) = true := by
    intro a b
    simp only [Bool.or_eq_true, startsFirst_iff]
    omega
  induction row with
  | nil => simp
  | cons first rest ih =>
    obtain ⟨hfirst, hrest⟩ := List.pairwise_cons.1 h
    -- the first period is sorted in behind those that start earlier
    obtain ⟨earlier, later, hsort, hsorted, hearlier⟩ :=
      List.mergeSort_cons htrans htotal first rest
    have ih := ih hrest
    have hstarts := List.pairwise_mergeSort htrans htotal (first :: rest)
    rw [hsorted, List.pairwise_append] at ih
    rw [hsort, List.pairwise_append, List.pairwise_cons] at hstarts
    rw [hsort, List.pairwise_append, List.pairwise_cons]
    obtain ⟨hearly, hlate, hacross⟩ := ih
    refine ⟨hearly, ⟨fun b hb => ?_, hlate⟩, fun a ha => List.forall_mem_cons.2 ⟨?_, hacross a ha⟩⟩
    · have hmem : b ∈ rest := by
        rw [← List.mem_mergeSort, hsorted]
        exact List.mem_append_right earlier hb
      have hplace := hfirst b hmem
      have hle := startsFirst_iff.1 (hstarts.2.1.1 b hb)
      rw [PlacedPeriod.Before, Instant.lt_def]
      omega
    · have hlt := hearlier a ha
      rw [Bool.not_eq_true', Bool.eq_false_iff, Ne, startsFirst_iff] at hlt
      exact .inl (Instant.lt_def.2 (Int.not_le.1 hlt))

/-- The order of a sweep. -/
theorem pairwise_swept (h : InPlaceOrder row) : (swept row).Pairwise PlacedPeriod.Before :=
  pairwise_mergeSort_startsFirst (List.Pairwise.filter _ h)

/-- Periods of a sweep at one place are the same. -/
theorem nodup_place_swept (h : InPlaceOrder row) :
    ((swept row).map PlacedPeriod.place).Nodup := by
  have hfilter : InPlaceOrder (row.filter fun a => a.period.start < a.period.stop) :=
    List.Pairwise.filter _ h
  have hnodup := List.pairwise_map.2 (hfilter.imp fun {_ _} hab => Nat.ne_of_lt hab)
  exact ((List.mergeSort_perm _ startsFirst).map PlacedPeriod.place).nodup_iff.2 hnodup

end Order

/-! ### The pairs of a sweep -/

section Pairs

variable {row : List PlacedPeriod}

/-- Two members of a list of which no two are equal follow one another in one of the orders. -/
theorem pair_sublist_or {α : Type} {a b : α} {xs : List α} (ha : a ∈ xs) (hb : b ∈ xs)
    (hne : a ≠ b) : [a, b].Sublist xs ∨ [b, a].Sublist xs := by
  induction xs with
  | nil => cases ha
  | cons x xs ih =>
    rcases List.mem_cons.1 ha with rfl | hmem
    · have hb := (List.mem_cons.1 hb).resolve_left hne.symm
      exact .inl ((List.singleton_sublist.2 hb).cons_cons a)
    · rcases List.mem_cons.1 hb with rfl | hb
      · exact .inr ((List.singleton_sublist.2 hmem).cons_cons b)
      · exact (ih hmem hb).imp (fun h => h.cons x) fun h => h.cons x

/-- What follows what in a sweep. -/
theorem pair_sublist_swept_iff (h : InPlaceOrder row) {a b : PlacedPeriod} :
    [a, b].Sublist (swept row) ↔ a ∈ swept row ∧ b ∈ swept row ∧ a.Before b := by
  have hbefore {a b : PlacedPeriod} : [a, b].Sublist (swept row) → a.Before b :=
    List.pairwise_iff_forall_sublist.1 (pairwise_swept h)
  constructor
  · intro hsub
    exact ⟨hsub.subset List.mem_cons_self, hsub.subset (List.mem_cons_of_mem a List.mem_cons_self),
      hbefore hsub⟩
  · rintro ⟨ha, hb, hab⟩
    have hne : a ≠ b := by
      rintro rfl
      exact hab.asymm hab
    refine (pair_sublist_or ha hb hne).resolve_right fun hsub => ?_
    exact hab.asymm (hbefore hsub)

/-- The sweep names the pairs of periods with an instant in common, the one that is swept first in
front. -/
theorem mem_sweep_swept_iff (h : InPlaceOrder row) {i j : Nat} :
    (i, j) ∈ sweep (swept row) ↔
      ∃ a ∈ row, ∃ b ∈ row, a.place = i ∧ b.place = j ∧ a.Before b ∧ a.period.Meets b.period := by
  have horder : InStartOrder (swept row) := (pairwise_swept h).imp PlacedPeriod.Before.start_le
  rw [mem_sweep_iff horder]
  simp only [pair_sublist_swept_iff h, mem_swept_iff]
  constructor
  · rintro ⟨a, b, ⟨⟨ha, hempty⟩, ⟨hb, hempty'⟩, hab⟩, hi, hj, hlt⟩
    exact ⟨a, ha, b, hb, hi, hj, hab,
      (Period.meets_iff_of_start_le hab.start_le).2 ⟨hempty, hempty', hlt⟩⟩
  · rintro ⟨a, ha, b, hb, hi, hj, hab, hmeets⟩
    obtain ⟨hempty, hempty', hlt⟩ := (Period.meets_iff_of_start_le hab.start_le).1 hmeets
    exact ⟨a, b, ⟨⟨ha, hempty⟩, ⟨hb, hempty'⟩, hab⟩, hi, hj, hlt⟩

/-- The pairs of a sweep, no two of them of the same places. -/
theorem pairwise_sweep (h : (row.map PlacedPeriod.place).Nodup) :
    (sweep row).Pairwise fun x y => x ≠ y ∧ x ≠ y.swap := by
  induction row with
  | nil => exact List.Pairwise.nil
  | cons first rest ih =>
    rw [List.map_cons, List.nodup_cons] at h
    obtain ⟨hnot, hrest⟩ := h
    have hother : ∀ a ∈ rest, a.place ≠ first.place :=
      fun a ha heq => hnot (List.mem_map.2 ⟨a, ha, heq⟩)
    rw [sweep, List.pairwise_append]
    refine ⟨?_, ih hrest, ?_⟩
    · -- the pairs of the first period have different second ones
      have hsub : (rest.takeWhile fun b => b.period.start < first.period.stop).Sublist rest :=
        List.takeWhile_sublist _
      refine List.pairwise_map.2 ((List.pairwise_map.1 hrest).sublist hsub |>.imp_of_mem ?_)
      intro a b ha _ hab
      refine ⟨fun heq => hab (congrArg Prod.snd heq), fun heq => ?_⟩
      exact hother a (hsub.subset ha) (congrArg Prod.snd heq)
    · -- and no later pair has the first period
      rintro x hx ⟨i, j⟩ hij
      obtain ⟨b, _, rfl⟩ := List.mem_map.1 hx
      obtain ⟨a, ha, rfl⟩ := fst_mem_of_mem_sweep hij
      obtain ⟨c, hc, rfl⟩ := snd_mem_of_mem_sweep hij
      refine ⟨fun heq => ?_, fun heq => ?_⟩
      · exact hother a ha (congrArg Prod.fst heq).symm
      · exact hother c hc (congrArg Prod.fst heq).symm

end Pairs

/-! ### Places are labels -/

/-- The period with another place. -/
def PlacedPeriod.relabel (label : Nat → Nat) (a : PlacedPeriod) : PlacedPeriod :=
  ⟨label a.place, a.period⟩

theorem swept_relabel (label : Nat → Nat) (row : List PlacedPeriod) :
    swept (row.map (.relabel label)) = (swept row).map (.relabel label) := by
  have hsort : ∀ part : List PlacedPeriod, (part.mergeSort startsFirst).map (.relabel label)
      = (part.map (.relabel label)).mergeSort startsFirst :=
    fun part => List.map_mergeSort fun _ _ _ _ => rfl
  rw [swept, swept, hsort, List.filter_map]
  rfl

/-- Other places are other labels of the same pairs. -/
theorem sweep_relabel (label : Nat → Nat) (row : List PlacedPeriod) :
    sweep (row.map (.relabel label)) = (sweep row).map (Prod.map label label) := by
  induction row with
  | nil => rfl
  | cons first rest ih =>
    rw [List.map_cons, sweep, sweep, ih, List.takeWhile_map, List.map_map, List.map_append,
      List.map_map]
    rfl

/-! ### Periods of a list -/

section Listed

variable {periods : List Period}

theorem inPlaceOrder_placed (periods : List Period) : InPlaceOrder (placed periods) := by
  refine List.pairwise_iff_getElem.2 fun i j hi hj hij => ?_
  simpa [placed] using hij

/-- The pairs that are named, by the places in the list: the two periods have an instant in common,
and the first one is swept first. -/
theorem mem_overlappingPairs_iff {i j : Nat} :
    (i, j) ∈ overlappingPairs periods ↔
      ∃ p q, periods[i]? = some p ∧ periods[j]? = some q ∧
        (PlacedPeriod.mk i p).Before ⟨j, q⟩ ∧ p.Meets q := by
  rw [overlappingPairs, byStart_eq_swept, mem_sweep_swept_iff (inPlaceOrder_placed periods)]
  simp only [mem_placed_iff]
  constructor
  · rintro ⟨⟨i, p⟩, hi, ⟨j, q⟩, hj, rfl, rfl, hbefore, hmeets⟩
    exact ⟨p, q, hi, hj, hbefore, hmeets⟩
  · rintro ⟨p, q, hi, hj, hbefore, hmeets⟩
    exact ⟨⟨i, p⟩, hi, ⟨j, q⟩, hj, rfl, rfl, hbefore, hmeets⟩

/-- The pairs of places are those of the periods that overlap. -/
structure NamesOverlaps (periods : List Period) (pairs : List (Nat × Nat)) : Prop where
  /-- Of two places whose periods have an instant in common one order is named, and not the
  other. -/
  named : ∀ i j p q, i ≠ j → periods[i]? = some p → periods[j]? = some q → p.Meets q →
    Xor ((i, j) ∈ pairs) ((j, i) ∈ pairs)
  /-- Nothing else is named, and the first period of a pair does not start after the second. -/
  only : ∀ i j, (i, j) ∈ pairs → i ≠ j ∧ ∃ p q, periods[i]? = some p ∧ periods[j]? = some q ∧
    p.Meets q ∧ p.start ≤ q.start
  once : pairs.Nodup

/-- Every two periods of a list with an instant in common are named once, the one that starts first
in front.  Periods that are empty or end before they start have no instant, and are not named. -/
theorem namesOverlaps_overlappingPairs (periods : List Period) :
    NamesOverlaps periods (overlappingPairs periods) where
  named i j p q hne hi hj hmeets := by
    -- the two are swept in one of the orders only
    have hij : (i, j) ∈ overlappingPairs periods ↔ (PlacedPeriod.mk i p).Before ⟨j, q⟩ := by
      simp [mem_overlappingPairs_iff, hi, hj, hmeets]
    have hji : (j, i) ∈ overlappingPairs periods ↔ (PlacedPeriod.mk j q).Before ⟨i, p⟩ := by
      simp [mem_overlappingPairs_iff, hi, hj, hmeets.symm]
    rw [hij, hji]
    rcases PlacedPeriod.before_or_before (a := ⟨i, p⟩) (b := ⟨j, q⟩) hne with h | h
    · exact .inl ⟨h, h.asymm⟩
    · exact .inr ⟨h, h.asymm⟩
  only i j hij := by
    obtain ⟨p, q, hi, hj, hbefore, hmeets⟩ := mem_overlappingPairs_iff.1 hij
    refine ⟨?_, p, q, hi, hj, hmeets, hbefore.start_le⟩
    rintro rfl
    cases hi.symm.trans hj
    exact hbefore.asymm hbefore
  once := by
    have h := pairwise_sweep (nodup_place_swept (inPlaceOrder_placed periods))
    exact h.imp fun hxy => hxy.1

/-- The period from one second to another, both counted from the beginning of 1970. -/
def Period.ofSeconds (start stop : Int) : Period :=
  ⟨⟨start, 0⟩, ⟨stop, 0⟩⟩

/-- A long period, one inside it, one that begins as it ends, an empty one, an inverted one, and one
that starts together with the first. -/
def Period.entangled : List Period :=
  [ofSeconds 0 10, ofSeconds 3 4, ofSeconds 10 12, ofSeconds 5 5, ofSeconds 9 2, ofSeconds 0 1]

/-- The first two of them overlap, and are named in one order only. -/
theorem namesOverlaps_overlappingPairs_entangled :
    (Period.ofSeconds 0 10).Meets (Period.ofSeconds 3 4) ∧
      Xor ((0, 1) ∈ overlappingPairs Period.entangled)
        ((1, 0) ∈ overlappingPairs Period.entangled) := by
  have hmeets : (Period.ofSeconds 0 10).Meets (Period.ofSeconds 3 4) := by decide
  refine ⟨hmeets, ?_⟩
  exact (namesOverlaps_overlappingPairs Period.entangled).named 0 1 _ _ (by decide) rfl rfl hmeets

end Listed

end EnergyFormula
