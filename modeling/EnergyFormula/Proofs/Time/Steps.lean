import EnergyFormula.Evaluation.Grid

/-!
# Steps in time

An instant is told by its position in time (`Instant.eq_of_rank_eq`), and outside leap seconds a
whole number of steps leads from one instant to another exactly if the second one is that many steps
after the first (`Resolution.stepsBetween?_eq_some_iff`).  The boundaries of a grid are therefore
its points `startOf k` (`Grid.isBoundary_iff`), which are told by their index and come in its order.
-/

namespace EnergyFormula

open Time

/-! ### Instants outside leap seconds -/

namespace Instant

variable {s t : Instant}

theorem le_of_lt (h : s < t) : s ≤ t :=
  Int.le_of_lt h

theorem not_lt : ¬ s < t ↔ t ≤ s :=
  Int.not_lt

theorem nano_lt (ht : ¬ t.IsLeap) : t.nano < nanosPerSecond :=
  Nat.not_le.1 ht

/-- An instant is told by its position in time. -/
theorem eq_of_rank_eq (h : s.rank = t.rank) : s = t := by
  have hs := s.nano_lt_two_seconds
  have ht := t.nano_lt_two_seconds
  simp only [rank, nanosPerSecond] at h hs ht
  exact ext (by omega) (by omega)

theorem le_antisymm (h : s ≤ t) (h' : t ≤ s) : s = t :=
  eq_of_rank_eq (Int.le_antisymm h h')

theorem rank_after (ht : ¬ t.IsLeap) (seconds : Nat) :
    (t.after seconds).rank = t.rank + seconds * (2 * nanosPerSecond : Nat) := by
  simp only [rank, second_after, nano_after ht, nanosPerSecond]
  omega

theorem after_le_after_iff (ht : ¬ t.IsLeap) {m n : Nat} : t.after m ≤ t.after n ↔ m ≤ n := by
  rw [le_def, rank_after ht, rank_after ht, nanosPerSecond]
  omega

theorem after_lt_after_iff (ht : ¬ t.IsLeap) {m n : Nat} : t.after m < t.after n ↔ m < n := by
  rw [lt_def, rank_after ht, rank_after ht, nanosPerSecond]
  omega

/-- Whole seconds pass exactly up to the instant that many seconds after. -/
theorem since_eq_iff (hs : ¬ s.IsLeap) (ht : ¬ t.IsLeap) {seconds : Nat} :
    t.since s = (seconds * nanosPerSecond : Nat) ↔ t = s.after seconds := by
  constructor
  · intro h
    rw [since_eq_of_not_leap ht hs] at h
    have hs' := nano_lt hs
    have ht' := nano_lt ht
    simp only [nanosPerSecond] at h hs' ht'
    refine ext ?_ ?_
    · rw [second_after]
      omega
    · rw [nano_after hs]
      omega
  · rintro rfl
    exact since_after hs seconds

end Instant

/-! ### Steps of a resolution -/

namespace Resolution

variable {r : Resolution} {s t : Instant}

theorem nanos_pos (r : Resolution) : 0 < r.nanos :=
  Nat.mul_pos r.positive (by decide)

theorem span_lt_span_iff {m n : Nat} : r.span m < r.span n ↔ m < n :=
  Nat.mul_lt_mul_left r.positive

theorem span_le_span_iff {m n : Nat} : r.span m ≤ r.span n ↔ m ≤ n :=
  Nat.mul_le_mul_left_iff r.positive

theorem span_add (r : Resolution) (m n : Nat) : r.span (m + n) = r.span m + r.span n :=
  Nat.mul_add _ _ _

theorem span_nanos (r : Resolution) (n : Nat) : r.span n * nanosPerSecond = n * r.nanos := by
  rw [span, nanos, Nat.mul_comm r.seconds n, Nat.mul_assoc]

/-- A resolution of a number of seconds has that many. -/
theorem seconds_of_ofSeconds {seconds : Int} {r : Resolution}
    (h : ofSeconds seconds = .ok r) : seconds = r.seconds := by
  have hpos := r.positive
  unfold ofSeconds ofTotal at h
  split at h
  · rename_i r' htotal
    split at htotal
    · split at htotal
      · cases htotal
        cases h
        dsimp only at hpos ⊢
        omega
      · cases htotal
    · cases htotal
  · cases h

/-- A number of steps between two instants takes all of the time between them. -/
theorem stepsBetween?_eq_some_iff_since {n : Nat} :
    r.stepsBetween? s t = some n ↔ t.since s = (n * r.nanos : Nat) := by
  have hpos : (0 : Int) < r.nanos := Int.natCast_pos.2 r.nanos_pos
  rw [stepsBetween?]
  generalize t.since s = elapsed
  split
  · rename_i h
    obtain ⟨hmod, hnonneg⟩ := h
    -- the quotient times the step is the time that passes
    have hdiv : elapsed / r.nanos * r.nanos = elapsed := Int.ediv_mul_cancel_of_emod_eq_zero hmod
    have hquotient : 0 ≤ elapsed / r.nanos := Int.ediv_nonneg hnonneg (Int.le_of_lt hpos)
    rw [Option.some.injEq]
    constructor
    · rintro rfl
      rw [Int.natCast_mul, Int.toNat_of_nonneg hquotient, hdiv]
    · rintro rfl
      rw [Int.natCast_mul, Int.mul_ediv_cancel _ (Int.ne_of_gt hpos), Int.toNat_natCast]
  · rename_i h
    refine iff_of_false (by simp) ?_
    rintro rfl
    refine h ⟨?_, Int.natCast_nonneg _⟩
    rw [Int.natCast_mul]
    exact Int.mul_emod_left _ _

/-- A whole number of steps leads from one instant to the one that many steps after it. -/
theorem stepsBetween?_eq_some_iff (hs : ¬ s.IsLeap) (ht : ¬ t.IsLeap) {n : Nat} :
    r.stepsBetween? s t = some n ↔ t = s.after (r.span n) := by
  rw [stepsBetween?_eq_some_iff_since, ← Instant.since_eq_iff hs ht, span_nanos]

theorem after_span_inj (ht : ¬ t.IsLeap) {m n : Nat} :
    t.after (r.span m) = t.after (r.span n) ↔ m = n := by
  constructor
  · intro h
    have hrank := congrArg Instant.rank h
    have hle := (Instant.after_le_after_iff ht).1 (Instant.le_def.2 (Int.le_of_eq hrank))
    have hge := (Instant.after_le_after_iff ht).1 (Instant.le_def.2 (Int.le_of_eq hrank.symm))
    exact Nat.le_antisymm (span_le_span_iff.1 hle) (span_le_span_iff.1 hge)
  · rintro rfl
    rfl

/-- From an earlier instant the aligned instants are those a whole number of steps after it. -/
theorem isAligned_iff (hs : ¬ s.IsLeap) (ht : ¬ t.IsLeap) (hle : s ≤ t) :
    r.isAligned s t = true ↔ ∃ n, t = s.after (r.span n) := by
  have hnonneg : 0 ≤ t.since s := by
    have hs' := Instant.nano_lt hs
    have ht' := Instant.nano_lt ht
    rw [Instant.since_eq_of_not_leap ht hs]
    rw [Instant.le_def] at hle
    simp only [Instant.rank, nanosPerSecond] at hle hs' ht' ⊢
    omega
  rw [isAligned, decide_eq_true_eq]
  constructor
  · intro h
    have hsteps : r.stepsBetween? s t = some (t.since s / r.nanos).toNat := if_pos ⟨h, hnonneg⟩
    exact ⟨_, (stepsBetween?_eq_some_iff hs ht).1 hsteps⟩
  · rintro ⟨n, h⟩
    -- steps are only counted where no time is left over
    have hsteps := (stepsBetween?_eq_some_iff hs ht).2 h
    rw [stepsBetween?] at hsteps
    split at hsteps
    · rename_i hmod
      exact hmod.1
    · cases hsteps

/-- The resolution `PT1H`. -/
def hour : Resolution :=
  ⟨3600, by decide, by decide⟩

end Resolution

/-! ### Grids -/

/-- The bounds of the period lie outside leap seconds. -/
def Period.OutsideLeaps (p : Period) : Prop :=
  ¬ p.start.IsLeap ∧ ¬ p.stop.IsLeap

instance (p : Period) : Decidable p.OutsideLeaps :=
  inferInstanceAs (Decidable (¬ p.start.IsLeap ∧ ¬ p.stop.IsLeap))

/-- A period is a whole number of steps exactly if it ends that many steps after its start. -/
theorem Resolution.stepsIn?_eq_some_iff {r : Resolution} {p : Period} (hp : p.OutsideLeaps)
    {n : Nat} : r.stepsIn? p = some n ↔ p.stop = p.start.after (r.span n) :=
  stepsBetween?_eq_some_iff hp.1 hp.2

namespace Grid

variable {g : Grid} {i j : Nat}

/-- The steps of a grid take all of the time of its period. -/
theorem nanos_period (g : Grid) : g.period.nanos = (g.length * g.resolution.nanos : Nat) :=
  Resolution.stepsBetween?_eq_some_iff_since.1 g.whole

theorem not_isLeap_startOf (hg : g.period.OutsideLeaps) (i : Nat) : ¬ (g.startOf i).IsLeap :=
  Instant.not_isLeap_after hg.1 _

theorem startOf_zero (g : Grid) : g.startOf 0 = g.period.start := by
  rw [startOf, Resolution.span, Nat.mul_zero, Instant.after_zero]

theorem startOf_length (hg : g.period.OutsideLeaps) : g.startOf g.length = g.period.stop :=
  ((Resolution.stepsIn?_eq_some_iff hg).1 g.whole).symm

theorem startOf_le_startOf_iff (hg : g.period.OutsideLeaps) :
    g.startOf i ≤ g.startOf j ↔ i ≤ j := by
  rw [startOf, startOf, Instant.after_le_after_iff hg.1, Resolution.span_le_span_iff]

theorem startOf_lt_startOf_iff (hg : g.period.OutsideLeaps) :
    g.startOf i < g.startOf j ↔ i < j := by
  rw [startOf, startOf, Instant.after_lt_after_iff hg.1, Resolution.span_lt_span_iff]

theorem startOf_inj (hg : g.period.OutsideLeaps) : g.startOf i = g.startOf j ↔ i = j :=
  Resolution.after_span_inj hg.1

theorem length_pos (hg : g.period.OutsideLeaps) : 0 < g.length := by
  rw [← startOf_lt_startOf_iff hg, startOf_zero, startOf_length hg]
  exact g.nonempty

theorem contains_startOf_iff (hg : g.period.OutsideLeaps) :
    g.period.contains (g.startOf i) = true ↔ i < g.length := by
  rw [Period.contains, Bool.and_eq_true, decide_eq_true_eq, decide_eq_true_eq, ← startOf_zero,
    ← startOf_length hg, startOf_le_startOf_iff hg, startOf_lt_startOf_iff hg]
  exact and_iff_right (Nat.zero_le i)

/-- An interval ends where the next one starts. -/
theorem startOf_succ (hg : g.period.OutsideLeaps) (i : Nat) :
    (g.startOf i).after g.resolution.seconds = g.startOf (i + 1) := by
  have hspan : g.resolution.span (i + 1) = g.resolution.span i + g.resolution.seconds :=
    Nat.mul_succ _ _
  rw [startOf, startOf, Instant.after_after hg.1, hspan]

/-- The boundaries of a grid are the starts of its intervals and its end. -/
theorem isBoundary_iff (hg : g.period.OutsideLeaps) {t : Instant} (ht : ¬ t.IsLeap) :
    g.isBoundary t = true ↔ ∃ k ≤ g.length, t = g.startOf k := by
  rw [isBoundary, Bool.and_eq_true, Bool.and_eq_true, decide_eq_true_eq, decide_eq_true_eq]
  constructor
  · rintro ⟨⟨hstart, hstop⟩, haligned⟩
    obtain ⟨k, rfl⟩ := (Resolution.isAligned_iff hg.1 ht hstart).1 haligned
    refine ⟨k, ?_, rfl⟩
    rw [← startOf_le_startOf_iff hg, startOf_length hg]
    exact hstop
  · rintro ⟨k, hk, rfl⟩
    have hstart : g.period.start ≤ g.startOf k := by
      rw [← startOf_zero, startOf_le_startOf_iff hg]
      exact Nat.zero_le k
    refine ⟨⟨hstart, ?_⟩, (Resolution.isAligned_iff hg.1 ht hstart).2 ⟨k, rfl⟩⟩
    rw [← startOf_length hg, startOf_le_startOf_iff hg]
    exact hk

/-- A grid is built exactly over a period of at least one step. -/
theorem exists_build_iff {p : Period} {r : Resolution} (hp : p.OutsideLeaps) :
    (∃ g, build p r = .ok g) ↔ ∃ n, 0 < n ∧ p.stop = p.start.after (r.span n) := by
  constructor
  · rintro ⟨g, h⟩
    obtain ⟨rfl, rfl⟩ := build_eq_ok_iff.1 h
    exact ⟨g.length, length_pos hp, (startOf_length hp).symm⟩
  · rintro ⟨n, hn, h⟩
    have hspan : r.span 0 < r.span n := Resolution.span_lt_span_iff.2 hn
    have hnonempty : p.start < p.stop := by
      rw [← Instant.after_lt_after_iff hp.1, ← h] at hspan
      exact hspan
    refine ⟨⟨p, r, n, hnonempty, ?_⟩, build_eq_ok_iff.2 ⟨rfl, rfl⟩⟩
    exact (Resolution.stepsIn?_eq_some_iff hp).2 h

/-- The period between two boundaries has a grid of its own, whose intervals are among those of the
whole. -/
theorem exists_build_between (hg : g.period.OutsideLeaps) (hij : i < j) :
    ∃ part, build ⟨g.startOf i, g.startOf j⟩ g.resolution = .ok part ∧
      part.length = j - i ∧ ∀ k, part.startOf k = g.startOf (i + k) := by
  have hp : Period.OutsideLeaps ⟨g.startOf i, g.startOf j⟩ :=
    ⟨not_isLeap_startOf hg i, not_isLeap_startOf hg j⟩
  have hstart (k : Nat) :
      (g.startOf i).after (g.resolution.span k) = g.startOf (i + k) := by
    rw [startOf, Instant.after_after hg.1, ← Resolution.span_add]
    rfl
  have hstop : g.startOf j = (g.startOf i).after (g.resolution.span (j - i)) := by
    rw [hstart, Nat.add_sub_cancel' (Nat.le_of_lt hij)]
  let part : Grid :=
    { period := ⟨g.startOf i, g.startOf j⟩
      resolution := g.resolution
      length := j - i
      nonempty := (startOf_lt_startOf_iff hg).2 hij
      whole := (Resolution.stepsIn?_eq_some_iff hp).2 hstop }
  exact ⟨part, build_eq_ok_iff.2 ⟨rfl, rfl⟩, rfl, hstart⟩

end Grid

end EnergyFormula
