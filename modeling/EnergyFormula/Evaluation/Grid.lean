import EnergyFormula.Evaluation.Error

/-!
# The grid of an evaluation

An evaluation runs on a `Grid`: intervals of one length that cover the requested period without a
remainder.  Each interval carries a `Sample`, a value and its quality.
-/

namespace EnergyFormula

/-- A value and how good it is. -/
structure Sample where
  value : Float
  quality : IntervalQuality

namespace Sample

/-- A value of the best quality. -/
def validated (value : Float) : Sample :=
  ⟨value, .validated⟩

/-- The sample where there is no data. -/
def missing : Sample :=
  ⟨0, .missing⟩

end Sample

/-- Intervals of one length that cover a period. -/
structure Grid where
  period : Period
  resolution : Resolution
  length : Nat
  nonempty : period.start < period.stop
  whole : resolution.stepsIn? period = some length

namespace Grid

/-- The grid of a period that is a whole number of steps. -/
def build (period : Period) (resolution : Resolution) : Except EvalError Grid :=
  if hp : period.start < period.stop then
    match hl : resolution.stepsIn? period with
    | some length => .ok ⟨period, resolution, length, hp, hl⟩
    | none => .error (.of (.unevenPeriod period resolution))
  else .error (.of (.invalidPeriod ⟨period⟩))

/-- The start of an interval. -/
def startOf (g : Grid) (index : Nat) : Instant :=
  g.period.start.after (g.resolution.span index)

/-- The position of an interval; positions count from 1. -/
def position (index : Nat) : Int :=
  index + 1

/-- The instant is the start or the end of an interval. -/
def isBoundary (g : Grid) (t : Instant) : Bool :=
  g.period.start ≤ t && t ≤ g.period.stop && g.resolution.isAligned g.period.start t

/-- The intervals with the given samples. -/
def intervals (g : Grid) (samples : Array Sample) : Array Interval :=
  samples.mapIdx fun i s => Interval.atIndex g.period.start g.resolution i s.value s.quality

/-- A grid is built exactly over a period with an instant that is a whole number of steps. -/
theorem build_eq_ok_iff {period : Period} {resolution : Resolution} {g : Grid} :
    build period resolution = .ok g ↔ g.period = period ∧ g.resolution = resolution := by
  obtain ⟨p, r, n, hp, hl⟩ := g
  unfold build
  constructor
  · intro h
    split at h
    · split at h
      · cases h; exact ⟨rfl, rfl⟩
      · cases h
    · cases h
  · rintro ⟨rfl, rfl⟩
    rw [dif_pos hp]
    split
    · rename_i m hm
      have : m = n := Option.some.inj (hm.symm.trans hl)
      subst this
      rfl
    · rename_i hm
      rw [hl] at hm
      cases hm

end Grid

end EnergyFormula
