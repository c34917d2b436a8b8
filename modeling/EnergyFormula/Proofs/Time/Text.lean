import EnergyFormula.Proofs.Time.Calendar
import EnergyFormula.Proofs.Time.Grammar
import EnergyFormula.Time.Printer

/-!
# Instants as text

An instant that has been read is written with a text that is read as the same instant, as long as
its year in universal time has four digits without a sign (`Instant.parse_text`); the texts of all
other instants are refused (`Instant.parse_text_of_signed`).
-/

namespace EnergyFormula

open Text Time

namespace Time

/-! ### Fractions of a second -/

theorem isFraction_padded {width n : Nat} (hwidth : 0 < width) (hle : width ≤ 9)
    (h : n < 10 ^ width) : IsFraction (n * 10 ^ (9 - width)) ('.' :: padded width n) := by
  have hnumber := isNumber_padded hwidth h
  have hne : padded width n ≠ [] := by
    intro hnil
    have hlength := hnumber.length
    rw [hnil, List.length_nil] at hlength
    omega
  have hnanos : fractionNanos (padded width n) = n * 10 ^ (9 - width) := by
    unfold fractionNanos
    rw [List.take_of_length_le (by rw [hnumber.length]; exact hle), hnumber.value, hnumber.length]
    rfl
  rw [← hnanos]
  exact .digits hne hnumber.digits

theorem isFraction_fractionText {nano : Nat} (h : nano < nanosPerSecond) :
    IsFraction nano (fractionText nano) := by
  unfold nanosPerSecond at h
  -- the digits that are left off are zeros
  have hdigits : ∀ width power : Nat, 0 < width → width ≤ 9 → power = 10 ^ (9 - width) →
      nano % power = 0 → nano / power < 10 ^ width →
      IsFraction nano ('.' :: padded width (nano / power)) := by
    intro width power hwidth hle hpower hmod hlt
    have hnano : nano / power * 10 ^ (9 - width) = nano := by
      rw [← hpower, Nat.div_mul_cancel (Nat.dvd_of_mod_eq_zero hmod)]
    have hfraction := isFraction_padded hwidth hle hlt
    rwa [hnano] at hfraction
  unfold fractionText
  split
  · rename_i hzero
    rw [hzero]
    exact .absent
  · split
    · rename_i hmillis
      exact hdigits 3 1000000 (by decide) (by decide) rfl hmillis (by omega)
    · split
      · rename_i hmicros
        exact hdigits 6 1000 (by decide) (by decide) rfl hmicros (by omega)
      · have hall := hdigits 9 1 (by decide) (by decide) rfl (Nat.mod_one nano) (by omega)
        rwa [Nat.div_one] at hall

/-- The fraction of a second is read back. -/
theorem fraction_fractionText {nano : Nat} (h : nano < nanosPerSecond) {rest : List Char}
    (hrest : ∀ c ∈ rest.head?, isDigit c = false) (hpoint : rest.head? ≠ some '.') :
    fraction (fractionText nano ++ rest) = .ok (nano, rest) := by
  refine (isFraction_fractionText h).read fun c hc => ⟨hrest c hc, ?_⟩
  rintro rfl
  exact hpoint hc

/-! ### Whole texts -/

/-- Date and time of day as they are written in universal time. -/
def stampText (year month day : Nat) (time : TimeOfDay) : List Char :=
  padded 4 year ++ '-' :: (padded 2 month ++ '-' :: (padded 2 day ++ 'T' :: (padded 2 time.hour ++
    ':' :: (padded 2 time.minute ++ ':' :: (padded 2 time.second ++ (fractionText time.nano ++
      ['+', '0', '0', ':', '0', '0']))))))

theorem TimeOfDay.parts_lt (time : TimeOfDay) :
    time.hour < 100 ∧ time.minute < 100 ∧ time.second < 100 := by
  have h := time.valid
  unfold isTimeOfDay at h
  simp only [Bool.and_eq_true, decide_eq_true_eq] at h
  omega

/-- A written date with time is a timestamp in universal time. -/
theorem isTimestamp_stampText {year month day : Nat} (hyear : year < 10000)
    (hdate : (Date.mk year month day).isValid = true) (hmonth : month < 100) (hday : day < 100)
    (time : TimeOfDay) :
    IsTimestamp (stampText year month day time) (instantOf ⟨year, month, day⟩ time 0) := by
  obtain ⟨hhour, hminute, hsecond⟩ := time.parts_lt
  have htwo : ∀ {n : Nat}, n < 100 → IsNumber 2 n (padded 2 n) :=
    fun hn => isNumber_padded (by decide) hn
  have hzeros : IsNumber 2 0 ['0', '0'] := htwo (by decide)
  have hzone : IsZone 0 ['+', '0', '0', ':', '0', '0'] :=
    .signed .plus hzeros hzeros (by decide) (by decide)
  exact .mk (isNumber_padded (by decide) hyear) (htwo hmonth) (htwo hday) hdate (.inl rfl)
    (htwo hhour) (htwo hminute) (htwo hsecond) time.valid (isFraction_fractionText time.nano_lt) hzone

end Time

namespace Instant

/-- The year of the instant in universal time. -/
def year (t : Instant) : Int :=
  (Date.ofDayNumber t.dayNumber).year

/-- The year of the instant in universal time has four digits and no sign. -/
def HasFourDigitYear (t : Instant) : Prop :=
  0 ≤ t.year ∧ t.year ≤ 9999

instance (t : Instant) : Decidable t.HasFourDigitYear :=
  inferInstanceAs (Decidable (0 ≤ t.year ∧ t.year ≤ 9999))

/-- The time of day in universal time; a leap second is the second 60. -/
def timeOfDay (t : Instant) : TimeOfDay where
  hour := t.secondOfDay / 3600
  minute := t.secondOfDay / 60 % 60
  second := t.secondOfDay % 60 + if nanosPerSecond ≤ t.nano then 1 else 0
  nano := t.nano % nanosPerSecond
  valid := by
    have hsecond : t.secondOfDay < 86400 := by
      unfold secondOfDay secondsPerDay
      omega
    unfold isTimeOfDay
    simp only [Bool.and_eq_true, decide_eq_true_eq]
    split <;> omega
  nano_lt := Nat.mod_lt _ (by decide)

/-- An instant in a year of four digits is written part by part. -/
theorem toList_text {t : Instant} (hyear : t.HasFourDigitYear) :
    t.text.toList = stampText t.year.toNat (Date.ofDayNumber t.dayNumber).month
      (Date.ofDayNumber t.dayNumber).day t.timeOfDay := by
  obtain ⟨hzero, hlast⟩ := hyear
  have hfour : yearText (Date.ofDayNumber t.dayNumber).year = padded 4 t.year.toNat := by
    have hrange : (0 ≤ t.year && t.year ≤ 9999) = true := by simp [hzero, hlast]
    have hnat : t.year.natAbs = t.year.toNat := by omega
    show (if (0 ≤ t.year && t.year ≤ 9999) = true then padded 4 t.year.natAbs else _) = _
    rw [if_pos hrange, hnat]
  unfold text localText dateText timeText stampText
  rw [String.toList_ofList, hfour]
  simp only [List.append_assoc, List.cons_append]
  rfl

theorem inMinute_timeOfDay (t : Instant) : t.timeOfDay.inMinute (t.second / 60) = t := by
  have hproper := t.nano_proper
  have hsecond : (t.second % 86400).toNat = t.secondOfDay := rfl
  unfold TimeOfDay.inMinute
  by_cases hleap : t.IsLeap
  · -- the second 60 is the one after the last second of the minute
    have hnano : nanosPerSecond ≤ t.nano := hleap
    have hlast : t.timeOfDay.second = t.secondOfDay % 60 + 1 :=
      congrArg (t.secondOfDay % 60 + ·) (if_pos hleap)
    have hrest : t.timeOfDay.nano = t.nano - nanosPerSecond := by
      have hmod : t.nano % nanosPerSecond = (t.nano - nanosPerSecond) % nanosPerSecond :=
        Nat.mod_eq_sub_mod hnano
      exact hmod.trans (Nat.mod_eq_of_lt (by omega))
    rw [if_pos (by omega)]
    refine ext ?_ ?_
    · rw [second_withinLeap]
      omega
    · rw [nano_withinLeap]
      omega
  · have hsame : t.timeOfDay.second = t.secondOfDay % 60 :=
      congrArg (t.secondOfDay % 60 + ·) (if_neg hleap)
    rw [if_neg (by omega)]
    refine ext ?_ ?_
    · rw [second_within]
      omega
    · rw [nano_within]
      exact Nat.mod_eq_of_lt (Nat.not_le.1 hleap)

/-- An instant is told by its date and its time of day. -/
theorem instantOf_timeOfDay (t : Instant) :
    instantOf (Date.ofDayNumber t.dayNumber) t.timeOfDay 0 = t := by
  have hsecond : (t.second % 86400).toNat = t.secondOfDay := rfl
  have hday : t.second / 86400 = t.dayNumber := rfl
  have hminute : t.dayNumber * (1440 : Nat) + (t.secondOfDay / 3600 * 60 +
      t.secondOfDay / 60 % 60 : Nat) - 0 = t.second / 60 := by omega
  have htime : t.timeOfDay.hour * 60 + t.timeOfDay.minute =
      t.secondOfDay / 3600 * 60 + t.secondOfDay / 60 % 60 := rfl
  rw [instantOf, Date.dayNumber_ofDayNumber, htime, minutesPerDay, hminute, inMinute_timeOfDay]

/-- The text of an instant in a year of four digits is read part by part. -/
theorem readTimestamp_text {t : Instant} (hyear : t.HasFourDigitYear) :
    readTimestamp t.text.toList = .ok t := by
  have htext := toList_text hyear
  obtain ⟨hzero, hlast⟩ := hyear
  have hvalid : (Date.ofDayNumber t.dayNumber).isValid = true := by
    refine Date.isValid_ofDayNumber ?_
    unfold year at hzero hlast
    unfold isYear
    simp only [Bool.and_eq_true, decide_eq_true_eq]
    omega
  have hdate : Date.mk t.year.toNat (Date.ofDayNumber t.dayNumber).month
      (Date.ofDayNumber t.dayNumber).day = Date.ofDayNumber t.dayNumber := by
    have hnat : (t.year.toNat : Int) = (Date.ofDayNumber t.dayNumber).year :=
      Int.toNat_of_nonneg hzero
    rw [hnat]
  have hmonth := Date.month_ofDayNumber_le t.dayNumber
  have hday := Date.day_ofDayNumber_le t.dayNumber
  have hstamp := isTimestamp_stampText (by omega) (hdate ▸ hvalid) (by omega) (by omega)
    t.timeOfDay
  rw [hdate, instantOf_timeOfDay, ← htext] at hstamp
  exact hstamp.readTimestamp

/-- A written year begins with a digit or a sign. -/
theorem exists_yearText_eq (year : Int) :
    ∃ c r, yearText year = c :: r ∧ (isDigit c = true ∨ c = '-' ∨ c = '+') := by
  unfold yearText
  split
  · have hwidth := le_length_padded 4 year.natAbs
    match hyear : padded 4 year.natAbs with
    | [] =>
      rw [hyear, List.length_nil] at hwidth
      omega
    | c :: r =>
      have hmem : c ∈ padded 4 year.natAbs := by
        rw [hyear]
        exact List.mem_cons_self
      exact ⟨c, r, rfl, .inl (isDigit_of_mem_padded hmem)⟩
  · split
    · exact ⟨_, _, rfl, .inr (.inl rfl)⟩
    · exact ⟨_, _, rfl, .inr (.inr rfl)⟩

/-- A written instant has no blank at either end. -/
theorem trim_text (t : Instant) : trim t.text.toList = t.text.toList := by
  obtain ⟨c, r, hyear, hc⟩ := exists_yearText_eq (Date.ofDayNumber t.dayNumber).year
  have htext : t.text.toList = t.localText ++ ['+', '0', '0', ':', '0', '0'] :=
    String.toList_ofList
  have hblank : isBlank c = false := by
    rcases hc with hc | rfl | rfl
    · exact isBlank_of_isDigit hc
    · decide
    · decide
  refine trim_eq_self ?_ ?_
  · intro d hd
    rw [htext] at hd
    unfold localText dateText at hd
    rw [hyear] at hd
    cases hd
    exact hblank
  · intro d hd
    rw [htext, List.getLast?_append] at hd
    cases hd
    decide

/-- The text of an instant in a year of four digits is read as that instant. -/
theorem parse_text {t : Instant} (hyear : t.HasFourDigitYear) :
    Instant.parse t.text = .ok t := by
  unfold Instant.parse
  rw [trim_text, readTimestamp_text hyear]

/-- A year before 0 or after 9999 is written with its sign. -/
theorem exists_yearText_of_signed {year : Int} (h : ¬ (0 ≤ year ∧ year ≤ 9999)) :
    ∃ c, isDigit c = false ∧ yearText year = c :: padded 4 year.natAbs := by
  have hrange : ¬ (0 ≤ year && year ≤ 9999) = true := by
    rw [Bool.and_eq_true, decide_eq_true_eq, decide_eq_true_eq]
    exact h
  refine ⟨if year < 0 then '-' else '+', by split <;> decide, ?_⟩
  exact if_neg hrange

/-- A written instant is long enough for a timestamp. -/
theorem le_byteCount_text (t : Instant) : minTimestampBytes ≤ byteCount t.text.toList := by
  refine Nat.le_trans ?_ (length_le_byteCount t.text.toList)
  have htext : t.text.toList = t.localText ++ ['+', '0', '0', ':', '0', '0'] :=
    String.toList_ofList
  have hyear : 4 ≤ (yearText (Date.ofDayNumber t.dayNumber).year).length := by
    have hwidth := le_length_padded 4 (Date.ofDayNumber t.dayNumber).year.natAbs
    unfold yearText
    split
    · exact hwidth
    · exact Nat.le_succ_of_le hwidth
  have htwo : ∀ n, 2 ≤ (padded 2 n).length := le_length_padded 2
  have hmonth := htwo (Date.ofDayNumber t.dayNumber).month
  have hday := htwo (Date.ofDayNumber t.dayNumber).day
  have hhour := htwo (t.secondOfDay / 3600)
  have hminute := htwo (t.secondOfDay / 60 % 60)
  rw [htext]
  unfold minTimestampBytes localText dateText timeText
  simp only [List.length_append, List.length_cons, List.length_nil]
  omega

/-- The sign of a year before 0 or after 9999 is refused. -/
theorem parse_text_of_signed {t : Instant} (hyear : ¬ t.HasFourDigitYear) :
    Instant.parse t.text = .error ⟨t.text, .invalidCharacter⟩ := by
  have htext : t.text.toList = t.localText ++ ['+', '0', '0', ':', '0', '0'] :=
    String.toList_ofList
  obtain ⟨c, hc, hyearText⟩ : ∃ c, isDigit c = false ∧
      yearText (Date.ofDayNumber t.dayNumber).year = c :: padded 4 t.year.natAbs :=
    exists_yearText_of_signed hyear
  have hfail : ∀ r, fixedDigits 4 (c :: r) = .error .invalidCharacter := by
    intro r
    unfold fixedDigits
    simp [hc]
  have hread : readTimestamp t.text.toList = .error .invalidCharacter := by
    unfold readTimestamp
    rw [if_neg (Nat.not_lt.2 t.le_byteCount_text), htext]
    unfold localText dateText
    rw [hyearText]
    simp only [List.cons_append, hfail]
    rfl
  unfold Instant.parse
  rw [trim_text, hread]

end Instant

end EnergyFormula
