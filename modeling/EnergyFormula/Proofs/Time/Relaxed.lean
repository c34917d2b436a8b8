import EnergyFormula.Proofs.Time.Text

/-!
# Instants in documents

A document may write instants in many ways; in the way in which they are written here they are read
back, in every year of the calendar (`Instant.parseRelaxed?_documentText`).  All instants that are
read from documents lie in the calendar (`Instant.inCalendar_of_parseRelaxed?`).
-/

namespace EnergyFormula

open Text Time

namespace Time

/-! ### Parts of a relaxed text -/

theorem trimStart_of_head {s : List Char} (h : ∀ c ∈ s.head?, isBlank c = false) :
    trimStart s = s := by
  cases s with
  | nil => rfl
  | cons c s => exact List.dropWhile_cons_of_neg (by simp [h c rfl])

theorem head_padded_append {width n : Nat} (hwidth : 0 < width) (rest : List Char) :
    ∀ c ∈ (padded width n ++ rest).head?, isDigit c = true := by
  have hlength := le_length_padded width n
  have hne : padded width n ≠ [] := List.ne_nil_of_length_pos (by omega)
  obtain ⟨d, digits, hpadded⟩ := List.exists_cons_of_ne_nil hne
  have hmem : d ∈ padded width n := by
    rw [hpadded]
    exact List.mem_cons_self
  rw [hpadded]
  rintro c ⟨⟩
  exact isDigit_of_mem_padded hmem

/-- A number that is filled up to the greatest width is read to its end. -/
theorem shortNumber?_padded {width n : Nat} (hwidth : 0 < width) (h : n < 10 ^ width)
    (rest : List Char) : shortNumber? width (padded width n ++ rest) = some (n, rest) := by
  have hlength := length_padded hwidth h
  have htrim : trimStart (padded width n ++ rest) = padded width n ++ rest :=
    trimStart_of_head fun c hc => isBlank_of_isDigit (head_padded_append hwidth rest c hc)
  have htake : (padded width n ++ rest).take width = padded width n := List.take_left' hlength
  have hspan : spanDigits (padded width n) = (padded width n, []) :=
    spanDigits_self fun c hc => isDigit_of_mem_padded hc
  have hdigits : (padded width n).takeWhile isDigit = padded width n := congrArg Prod.fst hspan
  have hne : padded width n ≠ [] := List.ne_nil_of_length_pos (by omega)
  have hdrop : (padded width n ++ rest).drop (padded width n).length = rest := List.drop_left
  unfold shortNumber?
  rw [htrim]
  dsimp only
  rw [htake, hdigits, if_neg hne, hdrop, digitsValue_padded]

/-- Behind a sign a number of any width is read to its end. -/
theorem shortNumberOfAny?_padded {width : Nat} (hwidth : 0 < width) (n : Nat) {rest : List Char}
    (hrest : ∀ c ∈ rest.head?, isDigit c = false) :
    yearNumber?.shortNumberOfAny? (padded width n ++ rest) = some ((n : Int), rest) := by
  have hlength := le_length_padded width n
  have hspan : spanDigits (padded width n ++ rest) = (padded width n, rest) :=
    spanDigits_of_digits (fun c hc => isDigit_of_mem_padded hc) hrest
  unfold yearNumber?.shortNumberOfAny?
  rw [hspan]
  split
  · rename_i heq
    rw [Prod.mk.injEq] at heq
    rw [heq.1, List.length_nil] at hlength
    omega
  · rename_i heq
    cases heq
    rw [digitsValue_padded]

/-- A year without a sign is a number of four digits. -/
theorem yearNumber?_padded {n : Nat} (hn : n < 10 ^ 4) (rest : List Char) :
    yearNumber? (padded 4 n ++ rest) = some ((n : Int), rest) := by
  have hhead : ∀ c ∈ (padded 4 n ++ rest).head?, isDigit c = true :=
    head_padded_append (by decide) rest
  have htrim : trimStart (padded 4 n ++ rest) = padded 4 n ++ rest :=
    trimStart_of_head fun c hc => isBlank_of_isDigit (hhead c hc)
  unfold yearNumber?
  rw [htrim]
  split
  · rename_i heq
    exact absurd (hhead '-' (by rw [heq]; rfl)) (by decide)
  · rename_i heq
    exact absurd (hhead '+' (by rw [heq]; rfl)) (by decide)
  · rw [shortNumber?_padded (by decide) hn rest]
    rfl

/-- A written year is read back, with a sign or without one. -/
theorem yearNumber?_yearText (year : Int) {rest : List Char}
    (hrest : ∀ c ∈ rest.head?, isDigit c = false) :
    yearNumber? (yearText year ++ rest) = some (year, rest) := by
  have hsigned := shortNumberOfAny?_padded (by decide : 0 < 4) year.natAbs hrest
  unfold yearText
  by_cases hfour : (0 ≤ year && year ≤ 9999) = true
  · rw [if_pos hfour]
    rw [Bool.and_eq_true, decide_eq_true_eq, decide_eq_true_eq] at hfour
    have hnat : (year.natAbs : Int) = year := Int.natAbs_of_nonneg hfour.1
    rw [yearNumber?_padded (by omega), hnat]
  · rw [if_neg hfour]
    rw [Bool.and_eq_true, decide_eq_true_eq, decide_eq_true_eq] at hfour
    unfold yearNumber?
    rw [List.cons_append]
    by_cases hnegative : year < 0
    · have hnat : -(year.natAbs : Int) = year := by omega
      rw [if_pos hnegative, trimStart_of_head (by rintro c ⟨⟩; decide)]
      show (yearNumber?.shortNumberOfAny? (padded 4 year.natAbs ++ rest)).map
        (fun n => (-n.1, n.2)) = _
      rw [hsigned, Option.map_some, hnat]
    · have hnat : (year.natAbs : Int) = year := by omega
      rw [if_neg hnegative, trimStart_of_head (by rintro c ⟨⟩; decide)]
      show yearNumber?.shortNumberOfAny? (padded 4 year.natAbs ++ rest) = _
      rw [hsigned, hnat]

theorem relaxedDate?_dateText {date : Date} (hvalid : date.isValid = true)
    (hmonth : date.month < 100) (hday : date.day < 100) (rest : List Char) :
    relaxedDate? (dateText date ++ rest) = some (date, rest) := by
  have hafter (r : List Char) : after? '-' ('-' :: r) = some r := rfl
  have hhyphen : ∀ c ∈ ('-' :: (padded 2 date.month ++ '-' :: (padded 2 date.day ++ rest))).head?,
      isDigit c = false := by
    rintro c ⟨⟩
    decide
  have hyear := yearNumber?_yearText date.year hhyphen
  have htext : dateText date ++ rest =
      yearText date.year ++ '-' :: (padded 2 date.month ++ '-' :: (padded 2 date.day ++ rest)) := by
    unfold dateText
    simp only [List.append_assoc, List.cons_append]
  unfold relaxedDate?
  rw [htext, hyear]
  simp only [Option.bind_eq_bind, Option.bind_some, hafter,
    shortNumber?_padded (by decide : 0 < 2) hmonth, shortNumber?_padded (by decide : 0 < 2) hday,
    hvalid, if_true]

/-- A written time of day is read back. -/
theorem relaxedTime?_timeText (t : Instant) :
    relaxedTime? (timeText t.secondOfDay t.nano ++ ['Z']) = some (t.timeOfDay, ['Z']) := by
  have hafter (r : List Char) : after? ':' (':' :: r) = some r := rfl
  have hend : ∀ c ∈ ['Z'].head?, isDigit c = false := by
    rintro c ⟨⟩
    decide
  have hfraction := fraction_fractionText t.timeOfDay.nano_lt hend (by decide)
  have htext : timeText t.secondOfDay t.nano = padded 2 t.timeOfDay.hour ++
      ':' :: padded 2 t.timeOfDay.minute ++ ':' :: padded 2 t.timeOfDay.second ++
        fractionText t.timeOfDay.nano := rfl
  obtain ⟨hhour, hminute, hsecond⟩ := t.timeOfDay.parts_lt
  have htime : TimeOfDay.of? t.timeOfDay.hour t.timeOfDay.minute t.timeOfDay.second
      t.timeOfDay.nano = some t.timeOfDay :=
    TimeOfDay.of?_eq_some_iff.2 ⟨t.timeOfDay.valid, t.timeOfDay.nano_lt, rfl⟩
  rw [htext]
  unfold relaxedTime?
  simp only [List.append_assoc, List.cons_append, Option.bind_eq_bind, Option.bind_some, hafter,
    shortNumber?_padded (by decide : 0 < 2) hhour, shortNumber?_padded (by decide : 0 < 2) hminute,
    shortNumber?_padded (by decide : 0 < 2) hsecond, hfraction, Except.toOption, htime]
  rfl

end Time

/-! ### Instants of the calendar -/

namespace Instant

/-- The instant is in a year of the calendar. -/
def InCalendar (t : Instant) : Prop :=
  isInCalendar t = true

instance (t : Instant) : Decidable t.InCalendar :=
  inferInstanceAs (Decidable (isInCalendar t = true))

/-- Between two instants of the calendar there are no others. -/
theorem inCalendar_of_mem {s t u : Instant} (hs : s.InCalendar) (hu : u.InCalendar)
    (hst : s.second ≤ t.second) (htu : t.second ≤ u.second) : t.InCalendar := by
  have hfirst : s.dayNumber ≤ t.dayNumber := Int.ediv_le_ediv (by decide) hst
  have hlast : t.dayNumber ≤ u.dayNumber := Int.ediv_le_ediv (by decide) htu
  have hyears := Date.year_ofDayNumber_le hfirst
  have hyears' := Date.year_ofDayNumber_le hlast
  unfold InCalendar isInCalendar isYear at *
  simp only [Bool.and_eq_true, decide_eq_true_eq] at hs hu ⊢
  omega

/-- The seconds of the calendar have at most thirteen digits. -/
theorem second_mem_of_inCalendar {t : Instant} (h : t.InCalendar) :
    -10000000000000 < t.second ∧ t.second < 10000000000000 := by
  have hday : -656 * daysPerEra - epochOffset ≤ t.second / secondsPerDay ∧
      t.second / secondsPerDay < 656 * daysPerEra - epochOffset :=
    Date.dayNumber_mem_of_isYear h
  unfold daysPerEra epochOffset secondsPerDay at hday
  omega

end Instant

/-! ### What is read -/

/-- Only instants of the calendar are read from documents. -/
theorem Instant.inCalendar_of_parseRelaxed? {text : String} {t : Instant}
    (h : parseRelaxed? text = some t) : t.InCalendar := by
  unfold parseRelaxed? readRelaxed? at h
  obtain ⟨⟨date, s⟩, _, h⟩ := Option.bind_eq_some_iff.1 h
  dsimp only at h
  split at h
  · split at h
    · obtain ⟨_, _, h⟩ := Option.bind_eq_some_iff.1 h
      obtain ⟨⟨time, _⟩, _, h⟩ := Option.bind_eq_some_iff.1 h
      obtain ⟨⟨offset, _⟩, _, h⟩ := Option.bind_eq_some_iff.1 h
      dsimp only at h
      split at h
      · rename_i hcalendar
        cases h
        rw [Bool.and_eq_true] at hcalendar
        exact hcalendar.2
      · cases h
    · cases h
  · cases h

/-! ### Main result -/

/-- An instant of the calendar is read back as it is written in documents. -/
theorem Instant.parseRelaxed?_documentText {t : Instant} (h : t.InCalendar) :
    parseRelaxed? t.documentText = some t := by
  have hcalendar : isInCalendar t = true := h
  have hvalid : (Date.ofDayNumber t.dayNumber).isValid = true := Date.isValid_ofDayNumber h
  have hmonth := Date.month_ofDayNumber_le t.dayNumber
  have hday := Date.day_ofDayNumber_le t.dayNumber
  have hdate := relaxedDate?_dateText hvalid (by omega) (by omega)
    ('T' :: (timeText t.secondOfDay t.nano ++ ['Z']))
  have htext : t.documentText.toList = dateText (Date.ofDayNumber t.dayNumber) ++
      'T' :: (timeText t.secondOfDay t.nano ++ ['Z']) := by
    unfold documentText localText
    rw [String.toList_ofList, List.append_assoc, List.cons_append]
  have hoffset : relaxedOffset? (trimStart ['Z']) = some (0, []) := rfl
  unfold parseRelaxed? readRelaxed?
  rw [htext, hdate]
  simp only [Option.bind_eq_bind, Option.bind_some, relaxedTime?_timeText, hoffset,
    t.instantOf_timeOfDay, hcalendar]
  rfl

end EnergyFormula
