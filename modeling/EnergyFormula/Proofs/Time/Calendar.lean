import EnergyFormula.Time.Calendar
import Mathlib.Tactic.IntervalCases

/-!
# Dates and day numbers

Every day number is that of a date: `Date.ofDayNumber` finds it (`Date.dayNumber_ofDayNumber`), with
a month and a day that exist (`Date.isValid_ofDayNumber`).  A day of an era is told by its century,
the cycle of four years in the century, the year in the cycle and the day of the year
(`exists_dayOfEra`).
-/

namespace EnergyFormula.Time

/-! ### Years of an era -/

/-- The year of the era that a day of the era lies in. -/
def yearOfDay (day : Nat) : Nat :=
  (day - day / 1460 + day / 36524 - day / 146096) / 365

/-- Century, cycle of four years, year and day of the year tell a day of the era.  Only the last
year of a cycle has a day 365, and not that of a century, unless it is the last one. -/
structure DayOfEra where
  century : Nat
  cycle : Nat
  year : Nat
  day : Nat
  century_le : century ≤ 3
  cycle_le : cycle ≤ 24
  year_le : year ≤ 3
  day_le : day ≤ 365
  leap : day = 365 → year = 3 ∧ (cycle = 24 → century = 3)

namespace DayOfEra

variable (p : DayOfEra)

/-- The year of the era. -/
def yearOfEra : Nat :=
  100 * p.century + 4 * p.cycle + p.year

/-- The number of the day in the era. -/
def number : Nat :=
  36524 * p.century + 1461 * p.cycle + 365 * p.year + p.day

theorem daysBeforeYear_yearOfEra :
    daysBeforeYear p.yearOfEra = 36524 * p.century + 1461 * p.cycle + 365 * p.year := by
  have hcycle := p.cycle_le
  have hyear := p.year_le
  unfold daysBeforeYear yearOfEra
  omega

theorem yearOfDay_number : yearOfDay p.number = p.yearOfEra := by
  have hcentury := p.century_le
  have hcycle := p.cycle_le
  have hyear := p.year_le
  have hday := p.day_le
  have hleap := p.leap
  have hcenturies : p.number / 36524 - p.number / 146096 = p.century := by
    unfold number
    omega
  have hcycles : p.number / 1460 = 25 * p.century + p.cycle +
      (24 * p.century + p.cycle + 365 * p.year + p.day) / 1460 := by
    unfold number
    omega
  have hnumber : p.number = 36524 * p.century + 1461 * p.cycle + 365 * p.year + p.day := rfl
  unfold yearOfDay yearOfEra
  omega

end DayOfEra

/-- Every day of the era is told by its parts. -/
theorem exists_dayOfEra {day : Nat} (h : day < daysPerEra) : ∃ p : DayOfEra, p.number = day := by
  unfold daysPerEra at h
  -- the last century and the last cycle of an era are one day longer
  have hcentury : ∃ c, c ≤ 3 ∧ 36524 * c ≤ day ∧ (day < 36524 * c + 36524 ∨ c = 3) := by
    refine ⟨min (day / 36524) 3, ?_⟩
    omega
  obtain ⟨c, hc, hle, hlt⟩ := hcentury
  obtain ⟨inCentury, hday⟩ := Nat.exists_eq_add_of_le hle
  have hcycle : ∃ q, q ≤ 24 ∧ 1461 * q ≤ inCentury ∧ inCentury < 1461 * q + 1461 := by
    refine ⟨inCentury / 1461, ?_⟩
    omega
  obtain ⟨q, hq, hqle, hqlt⟩ := hcycle
  obtain ⟨inCycle, hinCentury⟩ := Nat.exists_eq_add_of_le hqle
  have hyear : ∃ k, k ≤ 3 ∧ 365 * k ≤ inCycle ∧ (inCycle < 365 * k + 365 ∨ k = 3) := by
    refine ⟨min (inCycle / 365) 3, ?_⟩
    omega
  obtain ⟨k, hk, hkle, hklt⟩ := hyear
  obtain ⟨inYear, hinCycle⟩ := Nat.exists_eq_add_of_le hkle
  have hinYear : inYear ≤ 365 := by omega
  have hleap : inYear = 365 → k = 3 ∧ (q = 24 → c = 3) := by omega
  refine ⟨⟨c, q, k, inYear, hc, hq, hk, hinYear, hleap⟩, ?_⟩
  show 36524 * c + 1461 * q + 365 * k + inYear = day
  omega

/-! ### Months -/

/-- The month that a day lies in, counted from March. -/
def monthFromMarch (day : Nat) : Nat :=
  (5 * day + 2) / 153

/-- The days before a month that is counted from March. -/
def daysBeforeMarchMonth (month : Nat) : Nat :=
  (153 * month + 2) / 5

/-- The usual number of a month that is counted from March. -/
def calendarMonth (month : Nat) : Nat :=
  if month < 10 then month + 3 else month - 9

theorem daysBeforeMarchMonth_le (day : Nat) : daysBeforeMarchMonth (monthFromMarch day) ≤ day := by
  unfold daysBeforeMarchMonth monthFromMarch
  omega

theorem monthFromMarch_le {day : Nat} (h : day ≤ 365) : monthFromMarch day ≤ 11 := by
  unfold monthFromMarch
  omega

theorem daysBeforeMonth_calendarMonth {month : Nat} (h : month ≤ 11) :
    daysBeforeMonth (calendarMonth month) = daysBeforeMarchMonth month := by
  unfold daysBeforeMonth calendarMonth daysBeforeMarchMonth
  split <;> split <;> omega

theorem calendarMonth_le_two_iff {month : Nat} (h : month ≤ 11) :
    calendarMonth month ≤ 2 ↔ 10 ≤ month := by
  unfold calendarMonth
  split <;> omega

theorem calendarMonth_mem {month : Nat} (h : month ≤ 11) :
    1 ≤ calendarMonth month ∧ calendarMonth month ≤ 12 := by
  unfold calendarMonth
  split <;> omega

theorem lt_daysBeforeMarchMonth_succ (day : Nat) :
    day < daysBeforeMarchMonth (monthFromMarch day + 1) := by
  unfold daysBeforeMarchMonth monthFromMarch
  omega

/-- All months but February end where the next one begins. -/
theorem daysInMonth_calendarMonth {month : Nat} (h : month ≤ 10) (year : Int) :
    daysInMonth year (calendarMonth month) =
      daysBeforeMarchMonth (month + 1) - daysBeforeMarchMonth month := by
  interval_cases month <;> rfl

/-- The day of the month exists; a 29 February is the day 365. -/
theorem dayOfMonth_le {day : Nat} (h : day ≤ 365) {year : Int}
    (hleap : day = 365 → isLeapYear year = true) :
    day - daysBeforeMarchMonth (monthFromMarch day) + 1 ≤
      daysInMonth year (calendarMonth (monthFromMarch day)) := by
  have hle := daysBeforeMarchMonth_le day
  have hlt := lt_daysBeforeMarchMonth_succ day
  by_cases hmonth : monthFromMarch day ≤ 10
  · rw [daysInMonth_calendarMonth hmonth]
    omega
  · have hfebruary : monthFromMarch day = 11 := by
      have hmonths := monthFromMarch_le h
      omega
    rw [hfebruary]
    show day - 337 + 1 ≤ if isLeapYear year = true then 29 else 28
    by_cases hday : day = 365
    · rw [if_pos (hleap hday)]
      omega
    · split <;> omega

/-! ### Day numbers -/

/-- The date of a day of an era. -/
def DayOfEra.date (p : DayOfEra) (era : Int) : Date :=
  let month := monthFromMarch p.day
  { year := p.yearOfEra + era * 400 + if 10 ≤ month then 1 else 0
    month := calendarMonth month
    day := p.day - daysBeforeMarchMonth month + 1 }

namespace DayOfEra

variable (p : DayOfEra) (era : Int)

theorem yearOfEra_lt : p.yearOfEra < 400 := by
  have hcentury := p.century_le
  have hcycle := p.cycle_le
  have hyear := p.year_le
  unfold yearOfEra
  omega

/-- The year in which the months January and February of a year from March lie is a leap year if
the year from March has a day 365. -/
theorem isLeapYear_of_day_eq (h : p.day = 365) : isLeapYear (p.yearOfEra + era * 400 + 1) = true := by
  obtain ⟨hyear, hcentury⟩ := p.leap h
  have hcycle := p.cycle_le
  have hcenturyLe := p.century_le
  have hfour : ((p.yearOfEra : Int) + era * 400 + 1) % 4 = 0 := by
    unfold yearOfEra
    omega
  have hrest : ¬ ((p.yearOfEra : Int) + era * 400 + 1) % 100 = 0 ∨
      ((p.yearOfEra : Int) + era * 400 + 1) % 400 = 0 := by
    unfold yearOfEra
    omega
  unfold isLeapYear
  simpa [hfour] using hrest

theorem dayNumber_date :
    (p.date era).dayNumber = era * daysPerEra + p.number - epochOffset := by
  have hyear := p.yearOfEra_lt
  have hbefore := p.daysBeforeYear_yearOfEra
  have hmonth := monthFromMarch_le p.day_le
  have hday := daysBeforeMarchMonth_le p.day
  -- January and February count to the year before
  have hmarch : (if (p.date era).month ≤ 2 then (p.date era).year - 1 else (p.date era).year) =
      p.yearOfEra + era * 400 := by
    have hiff := calendarMonth_le_two_iff hmonth
    show (if calendarMonth (monthFromMarch p.day) ≤ 2 then
      (p.yearOfEra + era * 400 + if 10 ≤ monthFromMarch p.day then 1 else 0 : Int) - 1
      else (p.yearOfEra + era * 400 + if 10 ≤ monthFromMarch p.day then 1 else 0)) = _
    split
    · rename_i h
      rw [if_pos (hiff.1 h)]
      omega
    · rename_i h
      rw [if_neg fun h' => h (hiff.2 h')]
      omega
  have hera : ((p.yearOfEra : Int) + era * 400) / 400 = era := by omega
  have hyearOfEra : (((p.yearOfEra : Int) + era * 400) % 400).toNat = p.yearOfEra := by omega
  unfold Date.dayNumber
  dsimp only
  rw [hmarch, hera, hyearOfEra, hbefore]
  show era * daysPerEra + (36524 * p.century + 1461 * p.cycle + 365 * p.year : Nat) +
    daysBeforeMonth (calendarMonth (monthFromMarch p.day)) +
    (p.day - daysBeforeMarchMonth (monthFromMarch p.day) + 1 : Nat) - 1 - epochOffset = _
  rw [daysBeforeMonth_calendarMonth hmonth]
  unfold number
  omega

theorem number_lt : p.number < daysPerEra := by
  have hcentury := p.century_le
  have hcycle := p.cycle_le
  have hyear := p.year_le
  have hday := p.day_le
  have hleap := p.leap
  unfold number daysPerEra
  omega

/-- In a later year of the era the days have greater numbers. -/
theorem number_lt_number {p q : DayOfEra} (h : p.yearOfEra < q.yearOfEra) : p.number < q.number := by
  have hcycle := p.cycle_le
  have hyear := p.year_le
  have hday := p.day_le
  have hleap := p.leap
  have hcentury' := q.century_le
  have hcycle' := q.cycle_le
  have hyear' := q.year_le
  unfold yearOfEra at h
  unfold number
  -- the parts are compared one after the other
  by_cases hcentury : p.century = q.century
  · by_cases hcycles : p.cycle = q.cycle
    · omega
    · omega
  · omega

/-- Years do not go back from one day to a later one. -/
theorem year_date_le {p q : DayOfEra} {era era' : Int}
    (h : era * daysPerEra + p.number ≤ era' * daysPerEra + q.number) :
    (p.date era).year ≤ (q.date era').year := by
  have hp := p.number_lt
  have hq := q.number_lt
  have hyear := p.yearOfEra_lt
  show (p.yearOfEra + era * 400 + if 10 ≤ monthFromMarch p.day then 1 else 0 : Int) ≤
    q.yearOfEra + era' * 400 + if 10 ≤ monthFromMarch q.day then 1 else 0
  have hfirst : (if 10 ≤ monthFromMarch p.day then 1 else 0 : Int) ≤ 1 := by split <;> decide
  have hsecond : (0 : Int) ≤ if 10 ≤ monthFromMarch q.day then 1 else 0 := by split <;> decide
  unfold daysPerEra at h hp hq
  by_cases hera : era < era'
  · omega
  obtain rfl : era = era' := by omega
  have hnumber : p.number ≤ q.number := by omega
  have hle : ¬ q.yearOfEra < p.yearOfEra := fun hlt => by
    have hnumbers := number_lt_number hlt
    omega
  by_cases hlt : p.yearOfEra < q.yearOfEra
  · omega
  -- within a year the month decides
  have hsame : p.yearOfEra = q.yearOfEra := by omega
  have hday : p.day ≤ q.day := by
    have hbefore := p.daysBeforeYear_yearOfEra
    have hbefore' := q.daysBeforeYear_yearOfEra
    rw [hsame] at hbefore
    unfold number at hnumber
    omega
  have hmonth : monthFromMarch p.day ≤ monthFromMarch q.day := by
    unfold monthFromMarch
    omega
  have hmonths : (if 10 ≤ monthFromMarch p.day then 1 else 0 : Int) ≤
      if 10 ≤ monthFromMarch q.day then 1 else 0 := by
    split <;> split <;> omega
  omega

theorem month_date_mem : 1 ≤ (p.date era).month ∧ (p.date era).month ≤ 12 :=
  calendarMonth_mem (monthFromMarch_le p.day_le)

theorem day_date_le : (p.date era).day ≤ daysInMonth (p.date era).year (p.date era).month := by
  refine dayOfMonth_le p.day_le fun h => ?_
  have hmonth : 10 ≤ monthFromMarch p.day := by
    rw [h]
    decide
  have hyear : (p.date era).year = p.yearOfEra + era * 400 + 1 := by
    show (p.yearOfEra + era * 400 + if 10 ≤ monthFromMarch p.day then 1 else 0 : Int) = _
    rw [if_pos hmonth]
  rw [hyear]
  exact p.isLeapYear_of_day_eq era h

end DayOfEra

namespace Date

/-- Every day number is the one of a day of an era. -/
theorem exists_ofDayNumber_eq (n : Int) : ∃ (p : DayOfEra) (era : Int),
    n = era * daysPerEra + p.number - epochOffset ∧ ofDayNumber n = p.date era := by
  have hday : ((n + epochOffset) % daysPerEra).toNat < daysPerEra := by
    unfold daysPerEra
    omega
  obtain ⟨p, hp⟩ := exists_dayOfEra hday
  refine ⟨p, (n + epochOffset) / daysPerEra, ?_, ?_⟩
  · rw [hp]
    unfold daysPerEra
    omega
  · have hyear : yearOfDay p.number = p.yearOfEra := p.yearOfDay_number
    have hdayOfYear : p.number - daysBeforeYear p.yearOfEra = p.day := by
      rw [p.daysBeforeYear_yearOfEra]
      unfold DayOfEra.number
      omega
    have hmonth := calendarMonth_le_two_iff (monthFromMarch_le p.day_le)
    -- without the leap days before it the day tells the year
    have hyearEq : (((n + epochOffset) % daysPerEra).toNat -
        ((n + epochOffset) % daysPerEra).toNat / 1460 +
        ((n + epochOffset) % daysPerEra).toNat / 36524 -
        ((n + epochOffset) % daysPerEra).toNat / 146096) / 365 = p.yearOfEra := by
      rw [← hp]
      exact hyear
    unfold ofDayNumber
    dsimp only
    rw [hyearEq, ← hp, hdayOfYear]
    show Date.mk (if calendarMonth (monthFromMarch p.day) ≤ 2 then _ else _) _ _ = Date.mk _ _ _
    congr 1
    by_cases h : 10 ≤ monthFromMarch p.day
    · rw [if_pos (hmonth.2 h), if_pos h]
    · rw [if_neg fun h' => h (hmonth.1 h'), if_neg h, Int.add_zero]

/-- The date of a day number has that number. -/
theorem dayNumber_ofDayNumber (n : Int) : (ofDayNumber n).dayNumber = n := by
  obtain ⟨p, era, hn, hdate⟩ := exists_ofDayNumber_eq n
  rw [hdate, p.dayNumber_date, ← hn]

/-- The date of a day number exists if its year does. -/
theorem isValid_ofDayNumber {n : Int} (h : isYear (ofDayNumber n).year = true) :
    (ofDayNumber n).isValid = true := by
  obtain ⟨p, era, _, hdate⟩ := exists_ofDayNumber_eq n
  rw [hdate] at h ⊢
  obtain ⟨hmonthPos, hmonth⟩ := p.month_date_mem era
  have hday := p.day_date_le era
  have hdayPos : 1 ≤ (p.date era).day := Nat.le_add_left 1 _
  unfold isValid
  simp [h, hmonthPos, hmonth, hdayPos, hday]

/-- Years do not go back from one day number to a greater one. -/
theorem year_ofDayNumber_le {m n : Int} (h : m ≤ n) :
    (ofDayNumber m).year ≤ (ofDayNumber n).year := by
  obtain ⟨p, era, hm, hdate⟩ := exists_ofDayNumber_eq m
  obtain ⟨q, era', hn, hdate'⟩ := exists_ofDayNumber_eq n
  rw [hdate, hdate']
  exact DayOfEra.year_date_le (by omega)

/-- The day numbers of the calendar are those of 1312 eras. -/
theorem dayNumber_mem_of_isYear {n : Int} (h : isYear (ofDayNumber n).year = true) :
    -656 * daysPerEra - epochOffset ≤ n ∧ n < 656 * daysPerEra - epochOffset := by
  obtain ⟨p, era, hn, hdate⟩ := exists_ofDayNumber_eq n
  rw [hdate, isYear, Bool.and_eq_true, decide_eq_true_eq, decide_eq_true_eq] at h
  have hyear : (p.date era).year =
      p.yearOfEra + era * 400 + if 10 ≤ monthFromMarch p.day then 1 else 0 := rfl
  have hyearOfEra := p.yearOfEra_lt
  have hnumber := p.number_lt
  have heras : -656 ≤ era ∧ era ≤ 655 := by
    rw [hyear] at h
    split at h <;> omega
  unfold daysPerEra at hn hnumber ⊢
  omega

theorem month_ofDayNumber_le (n : Int) : (ofDayNumber n).month ≤ 12 := by
  obtain ⟨p, era, _, hdate⟩ := exists_ofDayNumber_eq n
  rw [hdate]
  exact (p.month_date_mem era).2

theorem day_ofDayNumber_le (n : Int) : (ofDayNumber n).day ≤ 31 := by
  obtain ⟨p, era, _, hdate⟩ := exists_ofDayNumber_eq n
  rw [hdate]
  refine Nat.le_trans (p.day_date_le era) ?_
  unfold daysInMonth
  split
  · split <;> decide
  all_goals decide

end Date

end EnergyFormula.Time
