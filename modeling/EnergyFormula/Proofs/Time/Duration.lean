import EnergyFormula.Proofs.Outcome
import EnergyFormula.Proofs.Text.Digits
import EnergyFormula.Time.Resolution

/-!
# Resolutions as text

A resolution is written as a duration: a number of weeks, or days and a time of day of which any
part may be left out (`IsDuration`).  Of the durations exactly those are read that come to a positive
number of seconds within the range (`Resolution.parse_eq_ok_iff`), and what is written is read back
(`Resolution.parse_text`).  `Resolution.parse_durations` puts both together.

A text is read by splitting off one component after another.  A component is split off by its unit
(`IsComponent.split`) and passed over by every other one (`IsComponent.lacks`), and what is split off
is a component (`isComponent_of_split`).
-/

namespace EnergyFormula.Resolution

open Text

/-! ### Durations -/

/-- A row of ASCII digits, at least one of them. -/
def IsNumeral (digits : List Char) : Prop :=
  digits ≠ [] ∧ ∀ c ∈ digits, isDigit c = true

/-- A number and its unit, or nothing for a count of zero. -/
inductive IsComponent (unit : Char) : Nat → List Char → Prop
  | absent : IsComponent unit 0 []
  | present {digits : List Char} : IsNumeral digits →
      IsComponent unit (digitsValue digits) (digits ++ [unit])

/-- `PnW` or `P[nD][T[nH][nM][nS]]`, and the seconds that it comes to. -/
inductive IsDuration : Nat → List Char → Prop
  | weeks {digits : List Char} : IsNumeral digits →
      IsDuration (digitsValue digits * weekSeconds) ('P' :: (digits ++ ['W']))
  | days {days : Nat} {word : List Char} : IsComponent 'D' days word →
      IsDuration (days * daySeconds) ('P' :: word)
  | time {days hours minutes seconds : Nat} {dayWord hourWord minuteWord secondWord : List Char} :
      IsComponent 'D' days dayWord → IsComponent 'H' hours hourWord →
      IsComponent 'M' minutes minuteWord → IsComponent 'S' seconds secondWord →
      IsDuration (days * daySeconds + hours * 3600 + minutes * 60 + seconds)
        ('P' :: (dayWord ++ 'T' :: (hourWord ++ (minuteWord ++ secondWord))))

/-! ### Splitting off a component -/

section Components

variable {unit other : Char} {n : Nat} {s digits word rest : List Char}

/-- The unit is not that of the first component of the text. -/
def Lacks (unit : Char) (s : List Char) : Prop :=
  splitComponent unit s = ([], s)

theorem lacks_nil (unit : Char) : Lacks unit [] :=
  rfl

theorem lacks_time (unit : Char) (s : List Char) : Lacks unit ('T' :: s) := by
  have htake : ('T' :: s).takeWhile isDecimalDigit = [] :=
    List.takeWhile_cons_of_neg (by decide)
  unfold Lacks splitComponent
  rw [htake]

/-- The digits in front of a unit end at the unit. -/
theorem splitComponent_of_isNumeral (h : IsNumeral digits) (hother : isDecimalDigit other = false) :
    splitComponent unit (digits ++ other :: rest) =
      if other = unit then (digits, rest) else ([], digits ++ other :: rest) := by
  obtain ⟨hne, hdigits⟩ := h
  have hdecimal : ∀ c ∈ digits, isDecimalDigit c = true := fun c hc =>
    isDecimalDigit_of_isDigit (hdigits c hc)
  have htake : (digits ++ other :: rest).takeWhile isDecimalDigit = digits := by
    rw [List.takeWhile_append_of_pos hdecimal, List.takeWhile_cons_of_neg (by simp [hother]),
      List.append_nil]
  have hdrop : (digits ++ other :: rest).dropWhile isDecimalDigit = other :: rest := by
    rw [List.dropWhile_append_of_pos hdecimal, List.dropWhile_cons_of_neg (by simp [hother])]
  unfold splitComponent
  rw [htake, hdrop]
  cases digits with
  | nil => exact absurd rfl hne
  | cons d digits => rfl

/-- A component is split off by its unit; without one nothing is. -/
theorem IsComponent.split (h : IsComponent unit n word) (hunit : isDecimalDigit unit = false)
    (hrest : Lacks unit rest) :
    ∃ digits, splitComponent unit (word ++ rest) = (digits, rest) ∧
      digits.all isDigit = true ∧ digitsValue digits = n := by
  cases h with
  | absent => exact ⟨[], hrest, rfl, rfl⟩
  | @present digits hdigits =>
    refine ⟨digits, ?_, List.all_eq_true.2 hdigits.2, rfl⟩
    rw [List.append_assoc, List.singleton_append, splitComponent_of_isNumeral hdigits hunit,
      if_pos rfl]

/-- A component is passed over by every other unit. -/
theorem IsComponent.lacks (h : IsComponent other n word) (hother : isDecimalDigit other = false)
    (hne : other ≠ unit) (hrest : Lacks unit rest) : Lacks unit (word ++ rest) := by
  cases h with
  | absent => exact hrest
  | present hdigits =>
    rw [Lacks, List.append_assoc, List.singleton_append, splitComponent_of_isNumeral hdigits hother,
      if_neg hne]

/-- Nothing is split off, or digits that stand in front of the unit. -/
theorem splitComponent_eq (h : splitComponent unit s = (digits, rest)) :
    (digits = [] ∧ rest = s) ∨ (digits ≠ [] ∧ s = digits ++ unit :: rest) := by
  have hnothing : splitComponent unit s = ([], s) → digits = [] ∧ rest = s := by
    intro hsplit
    rw [hsplit] at h
    cases h
    exact ⟨rfl, rfl⟩
  have happend : s.takeWhile isDecimalDigit ++ s.dropWhile isDecimalDigit = s :=
    List.takeWhile_append_dropWhile
  cases htake : s.takeWhile isDecimalDigit with
  | nil => exact .inl (hnothing (by rw [splitComponent, htake]))
  | cons d row =>
    cases hdrop : s.dropWhile isDecimalDigit with
    | nil => exact .inl (hnothing (by rw [splitComponent, htake, hdrop]))
    | cons c behind =>
      have hsplit : splitComponent unit s = if c = unit then (d :: row, behind) else ([], s) := by
        rw [splitComponent, htake, hdrop]
      by_cases hc : c = unit
      · rw [hsplit, if_pos hc] at h
        cases h
        rw [htake, hdrop, hc] at happend
        exact .inr ⟨List.cons_ne_nil d row, happend.symm⟩
      · exact .inl (hnothing (by rw [hsplit, if_neg hc]))

/-- What is split off with ASCII digits is a component. -/
theorem isComponent_of_split (h : splitComponent unit s = (digits, rest))
    (hdigits : digits.all isDigit = true) :
    ∃ word, s = word ++ rest ∧ IsComponent unit (digitsValue digits) word := by
  rcases splitComponent_eq h with ⟨rfl, rfl⟩ | ⟨hne, rfl⟩
  · exact ⟨[], rfl, .absent⟩
  · refine ⟨digits ++ [unit], ?_, .present ⟨hne, List.all_eq_true.1 hdigits⟩⟩
    rw [List.append_assoc, List.singleton_append]

end Components

/-! ### Sums of components -/

namespace Components

/-- The numbers of the components, each with the seconds of its unit, in the order in which they are
summed up. -/
def counts (c : Components) : List (Nat × Nat) :=
  [(digitsValue c.weeks, weekSeconds), (digitsValue c.days, daySeconds),
    (digitsValue c.hours, 3600), (digitsValue c.minutes, 60), (digitsValue c.seconds, 1)]

/-- The seconds that counts of units come to. -/
def sumOf : List (Nat × Nat) → Nat
  | [] => 0
  | p :: rest => p.1 * p.2 + sumOf rest

/-- The digits of all components are ASCII digits. -/
def IsAscii (c : Components) : Prop :=
  ∀ digits ∈ [c.weeks, c.days, c.hours, c.minutes, c.seconds], digits.all isDigit = true

/-- No step on the way to the sum overflows: no number, no product with its unit and no running
sum. -/
structure StaysInRange (c : Components) : Prop where
  numbers : ∀ p ∈ c.counts, p.1 ≤ maxComponent
  products : ∀ p ∈ c.counts, p.1 * p.2 ≤ maxComponent
  sums : ∀ k, sumOf (c.counts.take k) ≤ maxComponent

/-- The sum with its units written out. -/
theorem sumOf_counts (c : Components) :
    sumOf c.counts = digitsValue c.weeks * weekSeconds + digitsValue c.days * daySeconds +
      digitsValue c.hours * 3600 + digitsValue c.minutes * 60 + digitsValue c.seconds := by
  simp only [counts, sumOf, Nat.add_zero, Nat.mul_one, Nat.add_assoc]

theorem sumOf_append (counts others : List (Nat × Nat)) :
    sumOf (counts ++ others) = sumOf counts + sumOf others := by
  induction counts with
  | nil => rw [List.nil_append, sumOf, Nat.zero_add]
  | cons p rest ih => rw [List.cons_append, sumOf, sumOf, ih, Nat.add_assoc]

theorem mul_le_sumOf {counts : List (Nat × Nat)} {p : Nat × Nat} (hp : p ∈ counts) :
    p.1 * p.2 ≤ sumOf counts := by
  obtain ⟨before, after, rfl⟩ := List.append_of_mem hp
  rw [sumOf_append, sumOf]
  omega

theorem sumOf_take_le (counts : List (Nat × Nat)) (k : Nat) :
    sumOf (counts.take k) ≤ sumOf counts := by
  have happend := sumOf_append (counts.take k) (counts.drop k)
  rw [List.take_append_drop] at happend
  omega

/-- No step overflows on the way to a sum within the range. -/
theorem staysInRange_of_sumOf_le {c : Components} (h : sumOf c.counts ≤ maxComponent) :
    c.StaysInRange := by
  have hproducts : ∀ p ∈ c.counts, p.1 * p.2 ≤ maxComponent := fun p hp =>
    Nat.le_trans (mul_le_sumOf hp) h
  have hunits : ∀ p ∈ c.counts, 0 < p.2 := by
    simp [counts, weekSeconds, daySeconds]
  exact
    { numbers := fun p hp => Nat.le_trans (Nat.le_mul_of_pos_right p.1 (hunits p hp)) (hproducts p hp)
      products := hproducts
      sums := fun k => Nat.le_trans (sumOf_take_le c.counts k) h }

end Components

theorem componentSeconds_eq_ok_iff {unit n : Nat} {digits : List Char} :
    componentSeconds unit digits = .ok n ↔
      digits.all isDigit = true ∧ digitsValue digits * unit ≤ maxComponent ∧
        digitsValue digits * unit = n := by
  unfold componentSeconds
  split
  · rename_i h
    obtain ⟨hdigits, hrange⟩ := Bool.and_eq_true_iff.1 h
    rw [Except.ok.injEq, and_iff_right hdigits, and_iff_right (of_decide_eq_true hrange)]
  · rename_i h
    refine iff_of_false nofun ?_
    rintro ⟨hdigits, hrange, _⟩
    exact h (Bool.and_eq_true_iff.2 ⟨hdigits, decide_eq_true hrange⟩)

/-- The components are summed up if their digits are ASCII digits and no product overflows. -/
theorem Components.total_eq_ok_iff {c : Components} {n : Nat} :
    c.total = .ok n ↔
      c.IsAscii ∧ (∀ p ∈ c.counts, p.1 * p.2 ≤ maxComponent) ∧ sumOf c.counts = n := by
  rw [sumOf_counts, ← Nat.mul_one (digitsValue c.seconds)]
  simp only [Components.total, bind_eq_ok, componentSeconds_eq_ok_iff, IsAscii, counts,
    List.forall_mem_cons]
  constructor
  · rintro ⟨_, ⟨hw, hweeks, rfl⟩, _, ⟨hd, hdays, rfl⟩, _, ⟨hh, hhours, rfl⟩,
      _, ⟨hm, hminutes, rfl⟩, _, ⟨hs, hseconds, rfl⟩, ⟨⟩⟩
    exact ⟨⟨hw, hd, hh, hm, hs, nofun⟩, ⟨hweeks, hdays, hhours, hminutes, hseconds, nofun⟩, rfl⟩
  · rintro ⟨⟨hw, hd, hh, hm, hs, _⟩, ⟨hweeks, hdays, hhours, hminutes, hseconds, _⟩, rfl⟩
    exact ⟨_, ⟨hw, hweeks, rfl⟩, _, ⟨hd, hdays, rfl⟩, _, ⟨hh, hhours, rfl⟩, _, ⟨hm, hminutes, rfl⟩,
      _, ⟨hs, hseconds, rfl⟩, rfl⟩

/-! ### Reading durations -/

section Reading

variable {n : Nat} {s : List Char}

theorem components?_weeks {digits : List Char} (h : IsNumeral digits) :
    components? ('P' :: (digits ++ ['W'])) = some ⟨digits, [], [], [], []⟩ := by
  have hsplit : splitComponent 'W' (digits ++ ['W']) = (digits, []) := by
    rw [splitComponent_of_isNumeral h (by decide), if_pos rfl]
  cases digits with
  | nil => exact absurd rfl h.1
  | cons d row => rw [components?, hsplit]

theorem components?_days {days : Nat} {word : List Char} (h : IsComponent 'D' days word) :
    ∃ digits, components? ('P' :: word) = some ⟨[], digits, [], [], []⟩ ∧
      digits.all isDigit = true ∧ digitsValue digits = days := by
  have hweeks : Lacks 'W' (word ++ []) := h.lacks (by decide) (by decide) (lacks_nil 'W')
  obtain ⟨digits, hsplit, hdigits⟩ := h.split (by decide) (lacks_nil 'D')
  rw [List.append_nil] at hweeks hsplit
  refine ⟨digits, ?_, hdigits⟩
  rw [components?, hweeks, hsplit]

theorem components?_time {days hours minutes seconds : Nat}
    {dayWord hourWord minuteWord secondWord : List Char} (hdays : IsComponent 'D' days dayWord)
    (hhours : IsComponent 'H' hours hourWord) (hminutes : IsComponent 'M' minutes minuteWord)
    (hseconds : IsComponent 'S' seconds secondWord) :
    ∃ c, components? ('P' :: (dayWord ++ 'T' :: (hourWord ++ (minuteWord ++ secondWord)))) = some c ∧
      c.IsAscii ∧ digitsValue c.weeks = 0 ∧ digitsValue c.days = days ∧ digitsValue c.hours = hours ∧
        digitsValue c.minutes = minutes ∧ digitsValue c.seconds = seconds := by
  -- the units come in an order, so each one passes over the components behind its own
  have hlacksM : Lacks 'M' (secondWord ++ []) :=
    hseconds.lacks (by decide) (by decide) (lacks_nil 'M')
  have hlacksS : Lacks 'H' (secondWord ++ []) :=
    hseconds.lacks (by decide) (by decide) (lacks_nil 'H')
  have hlacksH : Lacks 'H' (minuteWord ++ (secondWord ++ [])) :=
    hminutes.lacks (by decide) (by decide) hlacksS
  obtain ⟨s, hs, hsAscii, hsValue⟩ := hseconds.split (by decide) (lacks_nil 'S')
  obtain ⟨m, hm, hmAscii, hmValue⟩ := hminutes.split (by decide) hlacksM
  obtain ⟨h, hh, hhAscii, hhValue⟩ := hhours.split (by decide) hlacksH
  rw [List.append_nil] at hs hm hh
  generalize hourWord ++ (minuteWord ++ secondWord) = time at hh ⊢
  have hweeks : Lacks 'W' (dayWord ++ 'T' :: time) :=
    hdays.lacks (by decide) (by decide) (lacks_time 'W' time)
  obtain ⟨d, hd, hdAscii, hdValue⟩ := hdays.split (by decide) (lacks_time 'D' time)
  refine ⟨⟨[], d, h, m, s⟩, ?_, ?_, rfl, hdValue, hhValue, hmValue, hsValue⟩
  · rw [components?, hweeks, hd]
    simp [hh, hm, hs]
  · simp only [Components.IsAscii, List.forall_mem_cons]
    exact ⟨rfl, hdAscii, hhAscii, hmAscii, hsAscii, nofun⟩

/-- Components with ASCII digits are those of a duration. -/
theorem isDuration_of_components? {c : Components} (h : components? s = some c) (hc : c.IsAscii) :
    IsDuration (Components.sumOf c.counts) s := by
  have hzero : digitsValue [] = 0 := rfl
  rw [Components.sumOf_counts]
  simp only [Components.IsAscii, List.forall_mem_cons] at hc
  obtain ⟨hwAscii, hdAscii, hhAscii, hmAscii, hsAscii, _⟩ := hc
  unfold components? at h
  split at h
  · split at h
    · rename_i hweeks
      cases h
      obtain ⟨hnil, _⟩ | ⟨hne, rfl⟩ := splitComponent_eq hweeks
      · cases hnil
      · simpa [hzero] using IsDuration.weeks ⟨hne, List.all_eq_true.1 hwAscii⟩
    · split at h
      · rename_i hdays
        cases h
        obtain ⟨word, rfl, hword⟩ := isComponent_of_split hdays hdAscii
        simpa [hzero] using IsDuration.days hword
      · rename_i days time hdays
        rcases hhours : splitComponent 'H' time with ⟨hours, afterHours⟩
        rcases hminutes : splitComponent 'M' afterHours with ⟨minutes, afterMinutes⟩
        rcases hseconds : splitComponent 'S' afterMinutes with ⟨seconds, afterSeconds⟩
        simp only [hhours, hminutes, hseconds] at h
        obtain ⟨rfl, h⟩ := Option.ite_none_right_eq_some.1 h
        cases h
        obtain ⟨dayWord, rfl, hday⟩ := isComponent_of_split hdays hdAscii
        obtain ⟨hourWord, rfl, hhour⟩ := isComponent_of_split hhours hhAscii
        obtain ⟨minuteWord, rfl, hminute⟩ := isComponent_of_split hminutes hmAscii
        obtain ⟨secondWord, rfl, hsecond⟩ := isComponent_of_split hseconds hsAscii
        simpa [hzero] using IsDuration.time hday hhour hminute hsecond
      · cases h
  · cases h

/-- The texts of components with ASCII digits are the durations. -/
theorem isDuration_iff : IsDuration n s ↔
    ∃ c, components? s = some c ∧ c.IsAscii ∧ Components.sumOf c.counts = n := by
  constructor
  · intro h
    have hzero : digitsValue [] = 0 := rfl
    cases h with
    | @weeks digits hdigits =>
      refine ⟨_, components?_weeks hdigits, ?_, ?_⟩
      · simp only [Components.IsAscii, List.forall_mem_cons]
        exact ⟨List.all_eq_true.2 hdigits.2, rfl, rfl, rfl, rfl, nofun⟩
      · simp [Components.sumOf_counts, hzero]
    | days hdays =>
      obtain ⟨digits, hc, hascii, rfl⟩ := components?_days hdays
      refine ⟨_, hc, ?_, ?_⟩
      · simp only [Components.IsAscii, List.forall_mem_cons]
        exact ⟨rfl, hascii, rfl, rfl, rfl, nofun⟩
      · simp [Components.sumOf_counts, hzero]
    | time hdays hhours hminutes hseconds =>
      obtain ⟨c, hc, hascii, hweeks, rfl, rfl, rfl, rfl⟩ :=
        components?_time hdays hhours hminutes hseconds
      refine ⟨c, hc, hascii, ?_⟩
      rw [Components.sumOf_counts, hweeks, Nat.zero_mul, Nat.zero_add]
  · rintro ⟨c, hc, hascii, rfl⟩
    exact isDuration_of_components? hc hascii

theorem maxSeconds_le_maxComponent : maxSeconds ≤ maxComponent := by
  decide

/-- What is read is summed up within the range. -/
theorem parseChars_eq_ok_iff_sumOf {r : Resolution} : parseChars s = .ok r ↔
    ∃ c, components? s = some c ∧ c.IsAscii ∧ Components.sumOf c.counts = r.seconds := by
  have hrange : ∀ c : Components, Components.sumOf c.counts = r.seconds → c.StaysInRange := by
    intro c hsum
    refine Components.staysInRange_of_sumOf_le ?_
    rw [hsum]
    exact Nat.le_trans r.bounded maxSeconds_le_maxComponent
  unfold parseChars
  cases components? s with
  | none => exact iff_of_false nofun (by rintro ⟨c, hc, _⟩; cases hc)
  | some c =>
    show (c.total >>= ofTotal) = .ok r ↔ _
    simp only [bind_eq_ok, ofTotal_eq_ok_iff, Components.total_eq_ok_iff, Option.some.injEq,
      exists_eq_left']
    constructor
    · rintro ⟨_, ⟨hascii, _, rfl⟩, hsum⟩
      exact ⟨hascii, hsum.symm⟩
    · rintro ⟨hascii, hsum⟩
      exact ⟨_, ⟨hascii, (hrange c hsum).products, rfl⟩, hsum.symm⟩

/-- The durations of as many seconds are read as the resolution, and no other text is. -/
theorem parse_eq_ok_iff {text : String} {r : Resolution} :
    parse text = .ok r ↔ IsDuration r.seconds text.toList := by
  rw [isDuration_iff, ← parseChars_eq_ok_iff_sumOf]
  unfold parse
  cases parseChars text.toList with
  | ok r' => simp
  | error fault => exact iff_of_false nofun nofun

end Reading

/-! ### Writing durations -/

theorem isNumeral_natural (n : Nat) : IsNumeral (natural n) :=
  ⟨Nat.toDigits_ne_nil, fun _ hc => isDigit_of_mem_natural hc⟩

theorem isComponent_component (n : Nat) (unit : Char) : IsComponent unit n (component n unit) := by
  unfold component
  split
  · rename_i hzero
    rw [hzero]
    exact .absent
  · have h : IsComponent unit (digitsValue (natural n)) (natural n ++ [unit]) :=
      .present (isNumeral_natural n)
    rwa [digitsValue_natural] at h

/-- A resolution is written as a duration of as many seconds. -/
theorem isDuration_chars (r : Resolution) : IsDuration r.seconds r.chars := by
  unfold chars
  split
  · -- a resolution is positive, so the weeks are not left out
    rename_i hweek
    have hdiv : r.seconds / weekSeconds * weekSeconds = r.seconds :=
      Nat.div_mul_cancel (Nat.dvd_of_mod_eq_zero hweek)
    have hne : r.seconds / weekSeconds ≠ 0 := by
      intro h
      rw [h, Nat.zero_mul] at hdiv
      exact Nat.ne_of_gt r.positive hdiv.symm
    have hweeks := IsDuration.weeks (isNumeral_natural (r.seconds / weekSeconds))
    rw [digitsValue_natural, hdiv] at hweeks
    rw [component, if_neg hne]
    exact hweeks
  · dsimp only
    have hday : r.seconds / daySeconds * daySeconds + r.seconds % daySeconds = r.seconds :=
      Nat.div_add_mod' _ _
    split
    · rename_i hrest
      have hdays := IsDuration.days (isComponent_component (r.seconds / daySeconds) 'D')
      rw [hrest, Nat.add_zero] at hday
      rw [hday] at hdays
      rw [List.append_nil]
      exact hdays
    · -- what is left of the days is split into hours, minutes and seconds
      generalize r.seconds % daySeconds = rest at hday ⊢
      have hsum : r.seconds / daySeconds * daySeconds + rest / 3600 * 3600 + rest / 60 % 60 * 60 +
          rest % 60 = r.seconds := by omega
      have htime := IsDuration.time (isComponent_component (r.seconds / daySeconds) 'D')
        (isComponent_component (rest / 3600) 'H') (isComponent_component (rest / 60 % 60) 'M')
        (isComponent_component (rest % 60) 'S')
      rw [hsum] at htime
      rw [List.append_assoc, List.cons_append]
      exact htime

/-- A resolution is read back from its text. -/
theorem parse_text (r : Resolution) : parse r.text = .ok r := by
  rw [parse_eq_ok_iff, text, String.toList_ofList]
  exact isDuration_chars r

/-! ### Main result -/

theorem eq_of_seconds_eq {r r' : Resolution} (h : r.seconds = r'.seconds) : r = r' := by
  cases r
  cases r'
  cases h
  rfl

/-- A text is read as a resolution exactly if it is a duration of one second up to the longest
resolution, and it is read as one of as many seconds; on the way no number, product or sum exceeds
the range.  A resolution is read back from its text, so two texts that are read denote the same length
exactly if the resolutions are written alike. -/
theorem parse_durations :
    (∀ (text : String) (n : Nat), (∃ r, parse text = .ok r ∧ r.seconds = n) ↔
      IsDuration n text.toList ∧ 1 ≤ n ∧ n ≤ maxSeconds) ∧
    (∀ (text : String) (r : Resolution), parse text = .ok r → ∃ c,
      components? text.toList = some c ∧ c.StaysInRange ∧
        Components.sumOf c.counts = r.seconds) ∧
    (∀ r : Resolution, parse r.text = .ok r) ∧
    (∀ (text text' : String) (r r' : Resolution), parse text = .ok r → parse text' = .ok r' →
      (r.text = r'.text ↔ r.seconds = r'.seconds)) := by
  refine ⟨fun text n => ?_, fun text r h => ?_, parse_text, fun text text' r r' _ _ => ?_⟩
  · constructor
    · rintro ⟨r, h, rfl⟩
      exact ⟨parse_eq_ok_iff.1 h, r.positive, r.bounded⟩
    · rintro ⟨h, hpositive, hbounded⟩
      exact ⟨⟨n, hpositive, hbounded⟩, parse_eq_ok_iff.2 h, rfl⟩
  · obtain ⟨c, hc, _, hsum⟩ := isDuration_iff.1 (parse_eq_ok_iff.1 h)
    refine ⟨c, hc, Components.staysInRange_of_sumOf_le ?_, hsum⟩
    rw [hsum]
    exact Nat.le_trans r.bounded maxSeconds_le_maxComponent
  · constructor
    · intro h
      have hread := parse_text r
      rw [h, parse_text r'] at hread
      cases hread
      rfl
    · intro h
      rw [eq_of_seconds_eq h]

/-- A day and a half is read from `PT036H` as well as from `P1DT720M`, and written alike. -/
theorem parse_durations_dayAndHalf :
    ∃ r r', parse "PT036H" = .ok r ∧ parse "P1DT720M" = .ok r' ∧
      IsDuration 129600 "PT036H".toList ∧ r.text = r'.text ∧
        ∃ c, components? "PT036H".toList = some c ∧ c.StaysInRange := by
  obtain ⟨hread, hrange, _, hwritten⟩ := parse_durations
  have hfirst : parse "PT036H" = .ok ⟨129600, by decide, by decide⟩ := rfl
  have hsecond : parse "P1DT720M" = .ok ⟨129600, by decide, by decide⟩ := rfl
  obtain ⟨c, hc, hstays, _⟩ := hrange "PT036H" _ hfirst
  exact ⟨_, _, hfirst, hsecond, ((hread "PT036H" 129600).1 ⟨_, hfirst, rfl⟩).1,
    (hwritten _ _ _ _ hfirst hsecond).2 rfl, c, hc, hstays⟩

end EnergyFormula.Resolution
