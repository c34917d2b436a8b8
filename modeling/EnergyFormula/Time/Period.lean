import EnergyFormula.Time.Printer
import EnergyFormula.Report

/-!
# Periods

A `Period` is the time from its start up to but not including its end.  `Period.check` refuses
periods without an instant, and `mem_intersect?` says that the intersection of two periods holds
the instants of both.
-/

namespace EnergyFormula

/-- The instants from `start` up to but not including `stop`. -/
structure Period where
  start : Instant
  stop : Instant
  deriving DecidableEq

/-- A period that holds no instant. -/
structure InvalidPeriod where
  period : Period
  deriving DecidableEq

instance : Reportable InvalidPeriod where
  code _ := .notEvaluable
  message e :=
    "Invalid period: start " ++ e.period.start.text ++ " is not before end " ++
      e.period.stop.text

namespace Period

/-- The period as it is written in messages. -/
def text (p : Period) : String :=
  "[" ++ p.start.text ++ ", " ++ p.stop.text ++ ")"

/-- A period must hold an instant. -/
def check (p : Period) : Except InvalidPeriod Unit :=
  if p.start < p.stop then .ok () else .error ⟨p⟩

/-- The length of a period in nanoseconds. -/
def nanos (p : Period) : Int :=
  p.stop.since p.start

/-- The length of a period in seconds, a fraction being cut off. -/
def seconds (p : Period) : Int :=
  p.nanos.tdiv Time.nanosPerSecond

/-- The instant lies in the period. -/
def contains (p : Period) (t : Instant) : Bool :=
  p.start ≤ t && t < p.stop

/-- The other period lies in this one, by its start and its end. -/
def covers (p other : Period) : Bool :=
  p.start ≤ other.start && other.stop ≤ p.stop

/-- Each of the two periods starts before the other one ends. -/
def overlaps (p other : Period) : Bool :=
  p.start < other.stop && other.start < p.stop

/-- The instants that two periods have in common, if there are any. -/
def intersect? (p other : Period) : Option Period :=
  let common : Period := ⟨p.start.latest other.start, p.stop.earliest other.stop⟩
  if common.start < common.stop then some common else none

/-- The intersection of two periods holds the instants that lie in both. -/
theorem mem_intersect? {p q r : Period} (h : p.intersect? q = some r) (t : Instant) :
    r.contains t = true ↔ p.contains t = true ∧ q.contains t = true := by
  simp only [intersect?, Option.ite_none_right_eq_some, Option.some.injEq] at h
  obtain ⟨-, rfl⟩ := h
  simp only [contains, Instant.latest, Instant.earliest, Bool.and_eq_true, decide_eq_true_eq,
    Instant.le_def, Instant.lt_def]
  split <;> split <;> omega

end Period

end EnergyFormula
