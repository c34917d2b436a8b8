import EnergyFormula.Proofs.Time.Steps
import Mathlib.Tactic.Ring

/-!
# Parts of periods

What a period has in common with another one is told by the later start and the earlier end
(`Period.intersect?_eq_some_iff`).  A period is split at a boundary strictly inside it
(`Period.SplitsAt`): what is said of its instants, or of the starts of its intervals, is said of both
parts, and what it has in common with another period is split there or lies in one of the parts
(`Period.intersect?_split`).
-/

namespace EnergyFormula

/-! ### The earlier and the later instant -/

theorem Instant.earliest_of_le {a b : Instant} (h : a ≤ b) : a.earliest b = a :=
  if_pos h

theorem Instant.earliest_of_ge {a b : Instant} (h : b ≤ a) : a.earliest b = b := by
  unfold earliest
  split
  · rename_i hle
    exact le_antisymm hle h
  · rfl

theorem Instant.latest_of_le {a b : Instant} (h : a ≤ b) : a.latest b = b :=
  if_pos h

theorem Instant.latest_of_ge {a b : Instant} (h : b ≤ a) : a.latest b = a := by
  unfold latest
  split
  · rename_i hle
    exact le_antisymm h hle
  · rfl

theorem Instant.rank_latest (a b : Instant) : (a.latest b).rank = max a.rank b.rank := by
  unfold Instant.latest
  split
  · rename_i h
    exact (Int.max_eq_right h).symm
  · rename_i h
    exact (Int.max_eq_left (Int.le_of_lt (Int.not_le.1 h))).symm

theorem Instant.rank_earliest (a b : Instant) : (a.earliest b).rank = min a.rank b.rank := by
  unfold Instant.earliest
  split
  · rename_i h
    exact (Int.min_eq_left h).symm
  · rename_i h
    exact (Int.min_eq_right (Int.le_of_lt (Int.not_le.1 h))).symm

namespace Period

/-! ### Periods in common -/

section Common

variable {p q r : Period}

theorem intersect?_eq_some_iff :
    p.intersect? q = some r ↔
      r = ⟨p.start.latest q.start, p.stop.earliest q.stop⟩ ∧ r.start < r.stop := by
  unfold intersect?
  dsimp only
  split
  · rename_i h
    rw [Option.some.injEq]
    constructor
    · rintro rfl
      exact ⟨rfl, h⟩
    · rintro ⟨rfl, _⟩
      rfl
  · rename_i h
    refine iff_of_false (by nofun) ?_
    rintro ⟨rfl, hlt⟩
    exact h hlt

theorem intersect?_eq_none_iff :
    p.intersect? q = none ↔ (p.stop.earliest q.stop).rank ≤ (p.start.latest q.start).rank := by
  unfold intersect?
  dsimp only
  split
  · rename_i h
    exact iff_of_false nofun (Int.not_le.2 h)
  · rename_i h
    exact iff_of_true rfl (Int.not_lt.1 h)

/-- Two periods with instants have some in common if each starts before the other one ends. -/
theorem intersect?_of_overlaps (hp : p.start < p.stop) (hq : q.start < q.stop)
    (h : p.overlaps q = true) :
    p.intersect? q = some ⟨p.start.latest q.start, p.stop.earliest q.stop⟩ := by
  refine intersect?_eq_some_iff.2 ⟨rfl, ?_⟩
  rw [overlaps, Bool.and_eq_true, decide_eq_true_eq, decide_eq_true_eq] at h
  simp only [Instant.lt_def, Instant.rank_latest, Instant.rank_earliest] at hp hq h ⊢
  omega

/-- The bounds of what two periods have in common are bounds of these. -/
theorem OutsideLeaps.intersect? (hp : p.OutsideLeaps) (hq : q.OutsideLeaps)
    (h : p.intersect? q = some r) : r.OutsideLeaps := by
  obtain ⟨rfl, _⟩ := intersect?_eq_some_iff.1 h
  constructor
  · unfold Instant.latest
    split
    · exact hq.1
    · exact hp.1
  · unfold Instant.earliest
    split
    · exact hp.2
    · exact hq.2

end Common

/-! ### Splits -/

/-- The part of a period before an instant. -/
def upTo (p : Period) (t : Instant) : Period :=
  ⟨p.start, t⟩

/-- The part of a period from an instant on. -/
def onward (p : Period) (t : Instant) : Period :=
  ⟨t, p.stop⟩

/-- The instant lies strictly inside the period, a whole number of steps after its start. -/
structure SplitsAt (p : Period) (r : Resolution) (t : Instant) : Prop where
  start_lt : p.start < t
  lt_stop : t < p.stop
  boundary : ∃ k, t = p.start.after (r.span k)

/-- The instant is the start of an interval of the resolution in the period. -/
def HasStart (p : Period) (r : Resolution) (t : Instant) : Prop :=
  (∃ k, t = p.start.after (r.span k)) ∧ t < p.stop

section Split

variable {p v w : Period} {r : Resolution} {t u : Instant}

theorem SplitsAt.not_isLeap (hp : p.OutsideLeaps) (h : p.SplitsAt r t) : ¬ t.IsLeap := by
  obtain ⟨k, rfl⟩ := h.boundary
  exact Instant.not_isLeap_after hp.1 _

theorem SplitsAt.upTo_outsideLeaps (hp : p.OutsideLeaps) (h : p.SplitsAt r t) :
    (p.upTo t).OutsideLeaps :=
  ⟨hp.1, h.not_isLeap hp⟩

theorem SplitsAt.onward_outsideLeaps (hp : p.OutsideLeaps) (h : p.SplitsAt r t) :
    (p.onward t).OutsideLeaps :=
  ⟨h.not_isLeap hp, hp.2⟩

/-- From the boundary on, the boundaries are those of the part behind it. -/
theorem SplitsAt.exists_after_iff (hp : p.OutsideLeaps) (h : p.SplitsAt r t) (hu : t ≤ u) :
    (∃ k, u = p.start.after (r.span k)) ↔ ∃ k, u = t.after (r.span k) := by
  obtain ⟨m, rfl⟩ := h.boundary
  constructor
  · rintro ⟨k, rfl⟩
    rw [Instant.after_le_after_iff hp.1, Resolution.span_le_span_iff] at hu
    refine ⟨k - m, ?_⟩
    rw [Instant.after_after hp.1, ← Resolution.span_add, Nat.add_sub_cancel' hu]
  · rintro ⟨k, rfl⟩
    refine ⟨m + k, ?_⟩
    rw [Instant.after_after hp.1, ← Resolution.span_add]

/-- A period is a whole number of steps exactly if what is left behind a boundary is. -/
theorem SplitsAt.whole_iff (hp : p.OutsideLeaps) (h : p.SplitsAt r t) :
    (∃ n, 0 < n ∧ p.stop = p.start.after (r.span n)) ↔
      (∃ n, 0 < n ∧ (p.upTo t).stop = (p.upTo t).start.after (r.span n)) ∧
        ∃ n, 0 < n ∧ (p.onward t).stop = (p.onward t).start.after (r.span n) := by
  -- the number of steps is positive where the period holds an instant
  have hpos : ∀ {q : Period}, q.OutsideLeaps → q.start < q.stop →
      ((∃ n, 0 < n ∧ q.stop = q.start.after (r.span n)) ↔ ∃ n, q.stop = q.start.after (r.span n)) := by
    intro q hq hlt
    constructor
    · rintro ⟨n, _, hn⟩
      exact ⟨n, hn⟩
    · rintro ⟨n, hn⟩
      refine ⟨n, ?_, hn⟩
      rw [hn, Instant.lt_def, Instant.rank_after hq.1] at hlt
      refine Nat.pos_of_ne_zero ?_
      rintro rfl
      rw [Resolution.span, Nat.mul_zero] at hlt
      omega
  have hwhole := h.exists_after_iff hp (Instant.le_of_lt h.lt_stop)
  have hlt : p.start < p.stop := Int.lt_trans h.start_lt h.lt_stop
  rw [hpos hp hlt, hpos (h.upTo_outsideLeaps hp) h.start_lt,
    hpos (h.onward_outsideLeaps hp) h.lt_stop, hwhole]
  exact (and_iff_right h.boundary).symm

theorem SplitsAt.contains_iff (h : p.SplitsAt r t) :
    p.contains u = true ↔ (p.upTo t).contains u = true ∨ (p.onward t).contains u = true := by
  have hstart := h.start_lt
  have hstop := h.lt_stop
  simp only [contains, upTo, onward, Bool.and_eq_true, decide_eq_true_eq, Instant.lt_def,
    Instant.le_def] at hstart hstop ⊢
  omega

/-- The intervals of a period are those of its parts. -/
theorem SplitsAt.hasStart_iff (hp : p.OutsideLeaps) (h : p.SplitsAt r t) :
    p.HasStart r u ↔ (p.upTo t).HasStart r u ∨ (p.onward t).HasStart r u := by
  constructor
  · rintro ⟨hu, hstop⟩
    by_cases hlt : u < t
    · exact .inl ⟨hu, hlt⟩
    · exact .inr ⟨(h.exists_after_iff hp (Instant.not_lt.1 hlt)).1 hu, hstop⟩
  · rintro (⟨hu, hlt⟩ | ⟨⟨k, hk⟩, hstop⟩)
    · exact ⟨hu, Int.lt_trans hlt h.lt_stop⟩
    · refine ⟨(h.exists_after_iff hp ?_).2 ⟨k, hk⟩, hstop⟩
      have ht := h.not_isLeap hp
      have hle : t.after 0 ≤ t.after (r.span k) :=
        (Instant.after_le_after_iff ht).2 (Nat.zero_le _)
      rw [hk]
      exact hle

end Split

section Intersect

variable {p v w : Period} {t : Instant}

/-- What a period has in common with another one lies before the boundary, or behind it, or is
split there. -/
theorem intersect?_split (hstart : p.start < t) (hstop : t < p.stop)
    (h : v.intersect? p = some w) :
    (v.intersect? (p.upTo t) = some w ∧ v.intersect? (p.onward t) = none) ∨
    (v.intersect? (p.upTo t) = none ∧ v.intersect? (p.onward t) = some w) ∨
    (w.start < t ∧ t < w.stop) ∧ v.intersect? (p.upTo t) = some (w.upTo t) ∧
      v.intersect? (p.onward t) = some (w.onward t) := by
  obtain ⟨rfl, hlt⟩ := intersect?_eq_some_iff.1 h
  by_cases hbefore : v.stop ≤ t
  · -- the other period is over at the boundary
    have hend : v.stop.earliest p.stop = v.stop :=
      Instant.earliest_of_le (Int.le_of_lt (Int.lt_of_le_of_lt hbefore hstop))
    have hend' : v.stop.earliest t = v.stop := Instant.earliest_of_le hbefore
    rw [hend] at hlt ⊢
    refine .inl ⟨intersect?_eq_some_iff.2 ⟨?_, hlt⟩, intersect?_eq_none_iff.2 ?_⟩
    · rw [upTo, hend']
    · rw [onward, hend, Instant.rank_latest]
      exact Int.le_trans hbefore (Int.le_max_right _ _)
  · have hstopAfter : t < v.stop := Int.not_le.1 hbefore
    by_cases hbehind : t ≤ v.start
    · -- the other period begins at the boundary or after it
      have hbegin : v.start.latest p.start = v.start :=
        Instant.latest_of_ge (Int.le_of_lt (Int.lt_of_lt_of_le hstart hbehind))
      have hbegin' : v.start.latest t = v.start := Instant.latest_of_ge hbehind
      rw [hbegin] at hlt ⊢
      refine .inr (.inl ⟨intersect?_eq_none_iff.2 ?_, intersect?_eq_some_iff.2 ⟨?_, hlt⟩⟩)
      · rw [upTo, hbegin, Instant.rank_earliest]
        exact Int.le_trans (Int.min_le_right _ _) hbehind
      · rw [onward, hbegin']
    · have hstartBefore : v.start < t := Int.not_le.1 hbehind
      have hinside : (v.start.latest p.start) < t ∧ t < v.stop.earliest p.stop := by
        simp only [Instant.lt_def, Instant.rank_latest, Instant.rank_earliest] at *
        omega
      refine .inr (.inr ⟨hinside, intersect?_eq_some_iff.2 ⟨?_, hinside.1⟩,
        intersect?_eq_some_iff.2 ⟨?_, hinside.2⟩⟩)
      · rw [upTo, upTo, Instant.earliest_of_ge (Int.le_of_lt hstopAfter)]
      · rw [onward, onward, Instant.latest_of_le (Int.le_of_lt hstartBefore)]

theorem intersect?_eq_none_of_split (hstart : p.start < t) (hstop : t < p.stop)
    (h : v.intersect? p = none) :
    v.intersect? (p.upTo t) = none ∧ v.intersect? (p.onward t) = none := by
  rw [intersect?_eq_none_iff] at h ⊢
  rw [intersect?_eq_none_iff]
  simp only [Instant.rank_latest, Instant.rank_earliest, upTo, onward, Instant.lt_def] at *
  omega

end Intersect

end Period

/-! ### Grids -/

/-- The starts of a period are those of the intervals of its grid. -/
theorem Grid.hasStart_iff {g : Grid} (hg : g.period.OutsideLeaps) {t : Instant} :
    g.period.HasStart g.resolution t ↔ ∃ i < g.length, t = g.startOf i := by
  constructor
  · rintro ⟨⟨k, rfl⟩, hlt⟩
    refine ⟨k, ?_, rfl⟩
    rw [← startOf_lt_startOf_iff hg, startOf_length hg]
    exact hlt
  · rintro ⟨i, hi, rfl⟩
    refine ⟨⟨i, rfl⟩, ?_⟩
    rw [← startOf_length hg, startOf_lt_startOf_iff hg]
    exact hi

/-- Coarser steps keep the phase of finer ones that divide them. -/
theorem Resolution.isAligned_after {fine coarse : Resolution} {origin t : Instant}
    (horigin : ¬ origin.IsLeap) (ht : ¬ t.IsLeap) (hdivides : fine.divides coarse = true) (k : Nat) :
    fine.isAligned origin (t.after (coarse.span k)) = fine.isAligned origin t := by
  obtain ⟨m, hm⟩ := Nat.dvd_of_mod_eq_zero (of_decide_eq_true hdivides)
  have hsince : (t.after (coarse.span k)).since origin =
      t.since origin + fine.nanos * (m * k : Nat) := by
    rw [Instant.since_eq_of_not_leap (Instant.not_isLeap_after ht _) horigin,
      Instant.since_eq_of_not_leap ht horigin, Instant.second_after, Instant.nano_after ht,
      Resolution.span, hm, Resolution.nanos]
    push_cast
    ring
  rw [isAligned, isAligned, hsince, Int.add_mul_emod_self_left]

end EnergyFormula
