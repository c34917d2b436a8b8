import EnergyFormula.Time.Calendar

/-!
# Instants

An `Instant` is a point of universal time to the nanosecond.  A leap second is told by the second
before it, the last one of a minute, and a count of nanoseconds of a thousand million or more; no
other second has such counts (`nanosWithin`).  Instants are ordered by `Instant.rank`, `since` is the
time that passes between two of them, and `after` the instant a number of seconds later;
`since_after` ties the two.

The years are not bounded here: `after` always leads to an instant.  The readers bound them
(`Time.isInCalendar`).
-/

namespace EnergyFormula.Time

/-- Nanoseconds of a second. -/
def nanosPerSecond : Nat :=
  1000000000

/-- Seconds of a day. -/
def secondsPerDay : Nat :=
  86400

/-- The nanoseconds that are counted from the beginning of a second: its own ones, and behind the last
second of a minute those of a leap second. -/
def nanosWithin (second : Int) : Nat :=
  if second % 60 = 59 then 2 * nanosPerSecond else nanosPerSecond

theorem nanosPerSecond_le_nanosWithin (second : Int) : nanosPerSecond ≤ nanosWithin second := by
  unfold nanosWithin
  split <;> omega

theorem nanosWithin_of_last {second : Int} (h : second % 60 = 59) :
    nanosWithin second = 2 * nanosPerSecond :=
  if_pos h

theorem nanosWithin_pos (second : Int) : 0 < nanosWithin second :=
  Nat.lt_of_lt_of_le (by decide) (nanosPerSecond_le_nanosWithin second)

/-- A numeral stands for a count of nanoseconds, modulo those of the second. -/
instance (second : Int) (nano : Nat) : OfNat (Fin (nanosWithin second)) nano where
  ofNat := ⟨nano % nanosWithin second, Nat.mod_lt nano (nanosWithin_pos second)⟩

end EnergyFormula.Time

namespace EnergyFormula

open Time

/-- A point of universal time. -/
structure Instant where
  /-- Whole seconds from the beginning of 1970. -/
  second : Int
  /-- The count of nanoseconds from the beginning of the second. -/
  count : Fin (nanosWithin second)
  deriving DecidableEq

namespace Instant

/-- Nanoseconds within the second; a thousand million and more within a leap second that follows
it. -/
def nano (t : Instant) : Nat :=
  t.count

/-- The instant a number of nanoseconds after the beginning of a second. -/
def within (second : Int) (nano : Nat) (h : nano < nanosPerSecond) : Instant :=
  ⟨second, nano, Nat.lt_of_lt_of_le h (nanosPerSecond_le_nanosWithin second)⟩

/-- The instant a number of nanoseconds after the last second of a minute. -/
def withinLeap (second : Int) (nano : Nat) (hlast : second % 60 = 59)
    (h : nano < nanosPerSecond) : Instant :=
  ⟨second, nano + nanosPerSecond, by rw [nanosWithin_of_last hlast]; omega⟩

@[simp] theorem second_within {second : Int} {nano : Nat} (h : nano < nanosPerSecond) :
    (within second nano h).second = second :=
  rfl

@[simp] theorem nano_within {second : Int} {nano : Nat} (h : nano < nanosPerSecond) :
    (within second nano h).nano = nano :=
  rfl

@[simp] theorem second_withinLeap {second : Int} {nano : Nat} (hlast : second % 60 = 59)
    (h : nano < nanosPerSecond) : (withinLeap second nano hlast h).second = second :=
  rfl

@[simp] theorem nano_withinLeap {second : Int} {nano : Nat} (hlast : second % 60 = 59)
    (h : nano < nanosPerSecond) : (withinLeap second nano hlast h).nano = nano + nanosPerSecond :=
  rfl

/-- An instant is told by its second and its nanoseconds. -/
theorem ext {a b : Instant} (hsecond : a.second = b.second) (hnano : a.nano = b.nano) : a = b := by
  obtain ⟨second, count⟩ := a
  obtain ⟨_, _⟩ := b
  obtain rfl : second = _ := hsecond
  rw [show count = _ from Fin.ext hnano]

/-- The nanoseconds count within the second, or on into a leap second at the end of a minute. -/
theorem nano_proper (t : Instant) :
    t.nano < nanosPerSecond ∨ t.nano < 2 * nanosPerSecond ∧ t.second % 60 = 59 := by
  have h : t.nano < nanosWithin t.second := t.count.isLt
  unfold nanosWithin at h
  split at h
  · exact .inr ⟨h, ‹_›⟩
  · exact .inl h

theorem nano_lt_two_seconds (t : Instant) : t.nano < 2 * nanosPerSecond := by
  have h := t.nano_proper
  omega

/-- The instant lies in a leap second. -/
def IsLeap (t : Instant) : Prop :=
  nanosPerSecond ≤ t.nano

instance (t : Instant) : Decidable t.IsLeap :=
  inferInstanceAs (Decidable (nanosPerSecond ≤ t.nano))

/-- Position in time: seconds first, then nanoseconds, of which there are fewer than two thousand
million. -/
def rank (t : Instant) : Int :=
  t.second * (2 * nanosPerSecond : Nat) + t.nano

instance : LT Instant :=
  ⟨fun a b => a.rank < b.rank⟩

instance : LE Instant :=
  ⟨fun a b => a.rank ≤ b.rank⟩

instance (a b : Instant) : Decidable (a < b) :=
  inferInstanceAs (Decidable (a.rank < b.rank))

instance (a b : Instant) : Decidable (a ≤ b) :=
  inferInstanceAs (Decidable (a.rank ≤ b.rank))

/-- The later of two instants. -/
def latest (a b : Instant) : Instant :=
  if a ≤ b then b else a

/-- The earlier of two instants. -/
def earliest (a b : Instant) : Instant :=
  if a ≤ b then a else b

/-- The day that the instant belongs to, counted from 1 January 1970. -/
def dayNumber (t : Instant) : Int :=
  t.second / secondsPerDay

/-- Whole seconds from the beginning of the day. -/
def secondOfDay (t : Instant) : Nat :=
  (t.second % secondsPerDay).toNat

/-- The leap second that is passed on the way from the earlier to the later time of day, counted
in the direction of the way. -/
def leapBetween (a b : Instant) : Int :=
  if b.secondOfDay < a.secondOfDay ∧ b.IsLeap then 1
  else if a.secondOfDay < b.secondOfDay ∧ a.IsLeap then -1
  else 0

/-- The nanoseconds that pass from `b` to `a`; negative if `a` is the earlier one. -/
def since (a b : Instant) : Int :=
  (a.second - b.second + leapBetween a b) * nanosPerSecond + ((a.nano : Int) - b.nano)

/-- The instant a number of seconds later.  A leap second is left as soon as any second passes. -/
def after (t : Instant) (seconds : Nat) : Instant :=
  if seconds = 0 then t
  else
    have h := t.nano_lt_two_seconds
    within (t.second + seconds)
      (if nanosPerSecond ≤ t.nano then t.nano - nanosPerSecond else t.nano) (by split <;> omega)

theorem lt_def {a b : Instant} : a < b ↔ a.rank < b.rank :=
  Iff.rfl

theorem le_def {a b : Instant} : a ≤ b ↔ a.rank ≤ b.rank :=
  Iff.rfl

/-- Outside leap seconds the time between two instants is the difference of their positions. -/
theorem since_eq_of_not_leap {a b : Instant} (ha : ¬ a.IsLeap) (hb : ¬ b.IsLeap) :
    a.since b = (a.second - b.second) * nanosPerSecond + ((a.nano : Int) - b.nano) := by
  simp [since, leapBetween, ha, hb]

/-- No seconds later is the same instant. -/
theorem after_zero (t : Instant) : t.after 0 = t :=
  rfl

@[simp] theorem second_after (t : Instant) (seconds : Nat) :
    (t.after seconds).second = t.second + seconds := by
  unfold after
  split
  · rename_i h
    rw [h, Int.natCast_zero, Int.add_zero]
  · rfl

/-- Outside leap seconds the nanoseconds stay the same. -/
theorem nano_after {t : Instant} (ht : ¬ t.IsLeap) (seconds : Nat) :
    (t.after seconds).nano = t.nano := by
  unfold after
  split
  · rfl
  · exact if_neg ht

theorem not_isLeap_after {t : Instant} (ht : ¬ t.IsLeap) (seconds : Nat) :
    ¬ (t.after seconds).IsLeap := by
  rw [IsLeap, nano_after ht]
  exact ht

/-- Seconds add up. -/
theorem after_after {t : Instant} (ht : ¬ t.IsLeap) (m n : Nat) :
    (t.after m).after n = t.after (m + n) := by
  refine ext ?_ ?_
  · rw [second_after, second_after, second_after, Int.add_assoc, Int.natCast_add]
  · rw [nano_after (not_isLeap_after ht m), nano_after ht, nano_after ht]

/-- Outside leap seconds `seconds` pass from an instant to the one `seconds` later. -/
theorem since_after {t : Instant} (ht : ¬ t.IsLeap) (seconds : Nat) :
    (t.after seconds).since t = (seconds * nanosPerSecond : Nat) := by
  rw [since_eq_of_not_leap (not_isLeap_after ht seconds) ht, second_after, nano_after ht]
  rw [show t.second + (seconds : Int) - t.second = seconds by omega]
  simp

end Instant

end EnergyFormula
