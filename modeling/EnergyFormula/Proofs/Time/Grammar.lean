import EnergyFormula.Proofs.Outcome
import EnergyFormula.Proofs.Text.Digits
import EnergyFormula.Time.Reader

/-!
# The form of timestamps

How the text of an instant is put together (`IsTimestamp`): a date, a time of day with or without a
fraction of a second, and an offset from universal time, as RFC 3339 has them.  Besides, a blank may
stand between date and time, and the minus sign U+2212 for the hyphen of an offset.  These texts,
and no others, are read (`readTimestamp_eq_ok_iff`).
-/

namespace EnergyFormula

open Text Time

namespace Time

/-! ### Numbers -/

/-- A row of `width` digits that denotes `n`. -/
structure IsNumber (width n : Nat) (s : List Char) : Prop where
  length : s.length = width
  digits : ∀ c ∈ s, isDigit c = true
  value : digitsValue s = n

section Parts

variable {width n nano : Nat} {zone : Int} {s word rest : List Char}

theorem length_le_byteCount (s : List Char) : s.length ≤ byteCount s := by
  have hfold : ∀ (s : List Char) (n : Nat),
      n + s.length ≤ s.foldl (fun bytes c => bytes + c.utf8Size) n := by
    intro s
    induction s with
    | nil => exact fun n => Nat.le_refl n
    | cons c s ih =>
      intro n
      have hc := c.utf8Size_pos
      have hrest := ih (n + c.utf8Size)
      rw [List.length_cons, List.foldl_cons]
      omega
  have h := hfold s 0
  rw [Nat.zero_add] at h
  exact h

theorem isNumber_padded (hwidth : 0 < width) (h : n < 10 ^ width) :
    IsNumber width n (padded width n) :=
  ⟨length_padded hwidth h, fun _ hc => isDigit_of_mem_padded hc, digitsValue_padded width n⟩

theorem length_take_eq_iff : (s.take width).length = width ↔ width ≤ s.length := by
  rw [List.length_take]
  omega

/-- The first `width` characters, if they are digits. -/
theorem isNumber_take_iff : IsNumber width n (s.take width) ↔
    width ≤ s.length ∧ (s.take width).all isDigit = true ∧ digitsValue (s.take width) = n := by
  rw [List.all_eq_true, ← length_take_eq_iff]
  exact ⟨fun h => ⟨h.length, h.digits, h.value⟩, fun ⟨hlength, hdigits, hvalue⟩ =>
    ⟨hlength, hdigits, hvalue⟩⟩

theorem exists_isNumber_iff : (∃ word, IsNumber width n word ∧ s = word ++ rest) ↔
    IsNumber width n (s.take width) ∧ s.drop width = rest := by
  constructor
  · rintro ⟨word, hword, rfl⟩
    rw [List.take_left' hword.length, List.drop_left' hword.length]
    exact ⟨hword, rfl⟩
  · rintro ⟨hword, rfl⟩
    exact ⟨_, hword, (List.take_append_drop width s).symm⟩

theorem fixedDigits_eq_ok_iff :
    fixedDigits width s = .ok (n, rest) ↔ ∃ word, IsNumber width n word ∧ s = word ++ rest := by
  rw [exists_isNumber_iff, isNumber_take_iff]
  have hshort : (s.take width).length < width ↔ ¬ width ≤ s.length := by
    have hle := List.length_take_le width s
    rw [← length_take_eq_iff]
    omega
  unfold fixedDigits
  simp only [hshort]
  by_cases hdigits : (s.take width).all isDigit = true
  · by_cases hwidth : width ≤ s.length
    · simp [hdigits, hwidth]
    · simp [hdigits, hwidth]
  · simp [hdigits]

theorem IsNumber.fixedDigits (h : IsNumber width n word) (rest : List Char) :
    fixedDigits width (word ++ rest) = .ok (n, rest) :=
  fixedDigits_eq_ok_iff.2 ⟨word, h, rfl⟩

theorem offsetDigits_eq_ok_iff :
    offsetDigits s = .ok (n, rest) ↔ ∃ word, IsNumber 2 n word ∧ s = word ++ rest := by
  rw [exists_isNumber_iff, isNumber_take_iff]
  unfold offsetDigits
  simp only [length_take_eq_iff]
  by_cases hbytes : byteCount s < 2
  · have hle := length_le_byteCount s
    simp [hbytes, show ¬ 2 ≤ s.length by omega]
  · by_cases hlength : 2 ≤ s.length
    · by_cases hdigits : (s.take 2).all isDigit = true
      · simp [hbytes, hlength, hdigits]
      · simp [hbytes, hlength, hdigits]
    · simp [hbytes, hlength]

theorem IsNumber.offsetDigits (h : IsNumber 2 n word) (rest : List Char) :
    offsetDigits (word ++ rest) = .ok (n, rest) :=
  offsetDigits_eq_ok_iff.2 ⟨word, h, rfl⟩

theorem expect_eq_ok_iff {p : Char → Bool} :
    expect p s = .ok rest ↔ ∃ c, p c = true ∧ s = c :: rest := by
  cases s with
  | nil => simp [expect]
  | cons c s =>
    by_cases hc : p c = true
    · simp [expect, hc]
    · simp [expect, hc]

/-! ### Fractions and zones -/

/-- The nanoseconds that the fraction of a second denotes: nothing, or a point and digits. -/
inductive IsFraction : Nat → List Char → Prop
  | absent : IsFraction 0 []
  | digits {digits : List Char} : digits ≠ [] → (∀ c ∈ digits, isDigit c = true) →
      IsFraction (fractionNanos digits) ('.' :: digits)

/-- The sign of a zone; true for the minus signs. -/
inductive IsSign : Bool → Char → Prop
  | plus : IsSign false '+'
  | hyphen : IsSign true '-'
  | minus : IsSign true '\u2212'

/-- The minutes that a zone is ahead of universal time: `Z`, or a sign, hours and minutes. -/
inductive IsZone : Int → List Char → Prop
  | universal {c : Char} : c = 'Z' ∨ c = 'z' → IsZone 0 [c]
  | signed {negative : Bool} {c : Char} {hours minutes : Nat} {h m : List Char} :
      IsSign negative c → IsNumber 2 hours h → IsNumber 2 minutes m → hours ≤ 23 → minutes ≤ 59 →
      IsZone (if negative then -(hours * 60 + minutes) else hours * 60 + minutes)
        (c :: (h ++ ':' :: m))

/-- The digits of a fraction are read up to their end. -/
theorem fraction_digits {digits rest : List Char} (hne : digits ≠ [])
    (hdigits : ∀ c ∈ digits, isDigit c = true) (hrest : ∀ c ∈ rest.head?, isDigit c = false) :
    fraction ('.' :: (digits ++ rest)) = .ok (fractionNanos digits, rest) := by
  rw [fraction, spanDigits_of_digits hdigits hrest]
  cases digits with
  | nil => exact absurd rfl hne
  | cons c digits => rfl

theorem fractionNanos_lt {digits : List Char} (h : ∀ c ∈ digits, isDigit c = true) :
    fractionNanos digits < nanosPerSecond := by
  have htake : ∀ c ∈ digits.take 9, isDigit c = true := fun c hc => h c (List.mem_of_mem_take hc)
  have hvalue := digitsValue_lt htake
  have hlength : (digits.take 9).length = min 9 digits.length := List.length_take
  unfold fractionNanos nanosPerSecond
  calc digitsValue (digits.take 9) * 10 ^ (9 - digits.length)
      < 10 ^ (digits.take 9).length * 10 ^ (9 - digits.length) :=
        Nat.mul_lt_mul_of_pos_right hvalue (Nat.pow_pos (by decide))
    _ = 10 ^ (min 9 digits.length + (9 - digits.length)) := by rw [hlength, ← Nat.pow_add]
    _ = 1000000000 := by
        have hnine : min 9 digits.length + (9 - digits.length) = 9 := by omega
        rw [hnine]
        rfl

theorem IsFraction.lt (h : IsFraction nano word) : nano < nanosPerSecond := by
  cases h with
  | absent => decide
  | digits _ hdigits => exact fractionNanos_lt hdigits

theorem IsFraction.read (h : IsFraction nano word)
    (hrest : ∀ c ∈ rest.head?, isDigit c = false ∧ c ≠ '.') :
    fraction (word ++ rest) = .ok (nano, rest) := by
  cases h with
  | absent =>
    cases rest with
    | nil => rfl
    | cons c r => simp [fraction, (hrest c rfl).2]
  | digits hne hdigits => exact fraction_digits hne hdigits fun c hc => (hrest c hc).1

theorem exists_isFraction (h : fraction s = .ok (nano, rest)) :
    ∃ word, IsFraction nano word ∧ s = word ++ rest := by
  unfold fraction at h
  split at h
  · rename_i r
    split at h
    · cases h
    · cases h
    · rename_i digits _ _ hne hspan
      cases h
      have hdigits : digits = (spanDigits r).1 := by rw [hspan]
      have happend := spanDigits_append r
      rw [hspan] at happend
      refine ⟨_, .digits hne fun c hc => ?_, by rw [← happend]; rfl⟩
      rw [hdigits] at hc
      exact isDigit_of_mem_spanDigits hc
  · cases h
    exact ⟨[], .absent, rfl⟩

theorem offsetSign_eq_ok_iff {negative : Bool} :
    offsetSign s = .ok (negative, rest) ↔ ∃ c, IsSign negative c ∧ s = c :: rest := by
  constructor
  · intro h
    unfold offsetSign at h
    split at h
    · simp only [Bool.or_eq_true, decide_eq_true_eq] at h
      split at h
      · rename_i hplus
        cases h
        exact ⟨_, .plus, by rw [hplus]⟩
      · split at h
        · rename_i hminus
          cases h
          rcases hminus with hhyphen | hminus
          · exact ⟨_, .hyphen, by rw [hhyphen]⟩
          · exact ⟨_, .minus, by rw [hminus]⟩
        · cases h
    · cases h
  · rintro ⟨c, hc, rfl⟩
    cases hc <;> rfl

theorem isOffset_iff (negative : Bool) {hours minutes : Nat} (h : minutes ≤ 59) :
    isOffset (if negative then -(hours * 60 + minutes) else hours * 60 + minutes) = true ↔
      hours ≤ 23 := by
  unfold isOffset minutesPerDay
  rw [decide_eq_true_eq]
  split
  · omega
  · omega

/-- A zone is read if it is less than a day away from universal time. -/
theorem offset_eq_ok_iff :
    offset (expect (· = ':')) s = .ok (zone, rest) ∧ isOffset zone = true ↔
      ∃ word, IsZone zone word ∧ s = word ++ rest := by
  constructor
  · rintro ⟨hread, hday⟩
    unfold offset at hread
    split at hread
    · cases hread
      exact ⟨_, .universal (.inl rfl), rfl⟩
    · cases hread
      exact ⟨_, .universal (.inr rfl), rfl⟩
    · simp only [bind_eq_ok, Prod.exists, offsetSign_eq_ok_iff, offsetDigits_eq_ok_iff,
        expect_eq_ok_iff, decide_eq_true_eq] at hread
      obtain ⟨negative, _, ⟨c, hc, rfl⟩, hours, _, ⟨h, hh, rfl⟩, _, ⟨_, rfl, rfl⟩, minutes, _,
        ⟨m, hm, rfl⟩, hread⟩ := hread
      split at hread
      · cases hread
      rename_i hminutes
      cases hread
      have hminutes : minutes ≤ 59 := Nat.le_of_not_lt hminutes
      exact ⟨_, .signed hc hh hm ((isOffset_iff negative hminutes).1 hday) hminutes, by simp⟩
  · rintro ⟨word, hword, rfl⟩
    cases hword with
    | universal hc =>
      rcases hc with rfl | rfl
      · exact ⟨rfl, rfl⟩
      · exact ⟨rfl, rfl⟩
    | signed hc hh hm hhours hminutes =>
      refine ⟨?_, (isOffset_iff _ hminutes).2 hhours⟩
      have hsign := fun rest => offsetSign_eq_ok_iff.2 ⟨_, hc, (rfl : _ :: rest = _)⟩
      cases hc <;>
        simp [offset, hsign, hh.offsetDigits, hm.offsetDigits, expect, Nat.not_lt.2 hminutes]

/-- No digit and no point begins a zone, so a fraction in front of it has its end there. -/
theorem IsZone.head (h : IsZone zone word) :
    ∀ c ∈ word.head?, isDigit c = false ∧ c ≠ '.' := by
  rintro c hc
  cases h with
  | universal hz =>
    cases hc
    rcases hz with rfl | rfl <;> decide
  | signed hsign =>
    cases hc
    cases hsign <;> decide

end Parts

/-! ### Whole texts -/

/-- There is a time of day with the given parts exactly if they are in range. -/
theorem TimeOfDay.of?_eq_some_iff {hour minute second nano : Nat} {time : TimeOfDay} :
    of? hour minute second nano = some time ↔
      ∃ (htime : isTimeOfDay hour minute second = true) (hnano : nano < nanosPerSecond),
        ⟨hour, minute, second, nano, htime, hnano⟩ = time := by
  unfold of?
  split
  · rename_i h
    rw [Option.some.injEq]
    exact ⟨fun heq => ⟨h.1, h.2, heq⟩, fun ⟨_, _, heq⟩ => heq⟩
  · rename_i h
    exact iff_of_false nofun fun ⟨htime, hnano, _⟩ => h ⟨htime, hnano⟩

/-- The instant that a text denotes: a date, a time of day and a zone. -/
inductive IsTimestamp : List Char → Instant → Prop
  | mk {year month day hour minute second nano : Nat} {zone : Int} {separator : Char}
      {year' month' day' hour' minute' second' nano' zone' : List Char} :
      IsNumber 4 year year' → IsNumber 2 month month' → IsNumber 2 day day' →
      (Date.mk year month day).isValid = true →
      separator = 'T' ∨ separator = 't' ∨ separator = ' ' →
      IsNumber 2 hour hour' → IsNumber 2 minute minute' → IsNumber 2 second second' →
      (htime : isTimeOfDay hour minute second = true) →
      (hnano : IsFraction nano nano') → IsZone zone zone' →
      IsTimestamp
        (year' ++ '-' :: (month' ++ '-' :: (day' ++ separator :: (hour' ++ ':' ::
          (minute' ++ ':' :: (second' ++ (nano' ++ zone')))))))
        (instantOf ⟨year, month, day⟩ ⟨hour, minute, second, nano, htime, hnano.lt⟩ zone)

section Whole

variable {s : List Char} {t : Instant}

theorem isTimestamp_of_readTimestamp (h : readTimestamp s = .ok t) : IsTimestamp s t := by
  unfold readTimestamp at h
  split at h
  · cases h
  -- the date
  simp only [bind_eq_ok, Prod.exists, fixedDigits_eq_ok_iff, expect_eq_ok_iff, decide_eq_true_eq] at h
  obtain ⟨year, _, ⟨year', hyear, rfl⟩, _, ⟨_, rfl, rfl⟩, month, _, ⟨month', hmonth, rfl⟩,
    _, ⟨_, rfl, rfl⟩, day, _, ⟨day', hday, rfl⟩, h⟩ := h
  split at h
  · cases h
  rename_i hdate
  -- the time of day
  simp only [bind_eq_ok, Prod.exists, fixedDigits_eq_ok_iff, expect_eq_ok_iff, Bool.or_eq_true,
    decide_eq_true_eq] at h
  obtain ⟨_, ⟨separator, hseparator, rfl⟩, hour, _, ⟨hour', hhour, rfl⟩, _, ⟨_, rfl, rfl⟩,
    minute, _, ⟨minute', hminute, rfl⟩, _, ⟨_, rfl, rfl⟩, second, _, ⟨second', hsecond, rfl⟩,
    nano, _, hfraction, h⟩ := h
  obtain ⟨nano', hnano, rfl⟩ := exists_isFraction hfraction
  split at h
  case h_2 => cases h
  rename_i htime'
  obtain ⟨htime, _, rfl⟩ := TimeOfDay.of?_eq_some_iff.1 htime'
  -- the zone, up to the end
  simp only [bind_eq_ok, Prod.exists] at h
  obtain ⟨zone, rest, hoffset, h⟩ := h
  split at h
  · cases h
  rename_i hrest
  split at h
  · cases h
  rename_i hless
  cases h
  obtain ⟨zone', hzone, rfl⟩ := offset_eq_ok_iff.1 ⟨hoffset, by simpa using hless⟩
  obtain rfl := not_not.1 hrest
  rw [List.append_nil]
  exact .mk hyear hmonth hday (by simpa using hdate) (or_assoc.1 hseparator) hhour hminute hsecond
    htime hnano hzone

theorem IsTimestamp.readTimestamp (h : IsTimestamp s t) : readTimestamp s = .ok t := by
  cases h with
  | @mk year month day hour minute second nano zone separator year' month' day' hour' minute' second'
      nano' zone' hyear hmonth hday hdate hseparator hhour hminute hsecond htime hnano hzone =>
    generalize htext : year' ++ '-' :: _ = text
    have hbytes : ¬ byteCount text < minTimestampBytes := by
      have hle := length_le_byteCount text
      have hlength : 19 ≤ text.length := by
        simp only [← htext, List.length_append, List.length_cons, hyear.length, hmonth.length,
          hday.length, hhour.length, hminute.length, hsecond.length]
        omega
      unfold minTimestampBytes
      omega
    have hfraction : fraction (nano' ++ zone') = .ok (nano, zone') :=
      hnano.read hzone.head
    obtain ⟨hoffset, hless⟩ := offset_eq_ok_iff.2 ⟨zone', hzone, (List.append_nil _).symm⟩
    have htime : TimeOfDay.of? hour minute second nano = some _ :=
      TimeOfDay.of?_eq_some_iff.2 ⟨htime, hnano.lt, rfl⟩
    have hdash : ∀ rest, expect (· = '-') ('-' :: rest) = .ok rest := fun _ => rfl
    have hcolon : ∀ rest, expect (· = ':') (':' :: rest) = .ok rest := fun _ => rfl
    have hbetween : ∀ rest, expect (fun c => c = 'T' || c = 't' || c = ' ') (separator :: rest) =
        .ok rest :=
      fun rest => expect_eq_ok_iff.2 ⟨separator, by simpa [or_assoc] using hseparator, rfl⟩
    unfold Time.readTimestamp
    rw [if_neg hbytes, ← htext]
    simp only [ok_bind, hyear.fixedDigits, hmonth.fixedDigits, hday.fixedDigits, hhour.fixedDigits,
      hminute.fixedDigits, hsecond.fixedDigits, hdash, hcolon, hbetween, hdate, htime, hfraction,
      hoffset, hless]
    rfl

theorem readTimestamp_eq_ok_iff : readTimestamp s = .ok t ↔ IsTimestamp s t :=
  ⟨isTimestamp_of_readTimestamp, fun h => h.readTimestamp⟩

end Whole

end Time

/-- Blanks around the text of an instant do not count. -/
theorem Instant.parse_eq_ok_iff {text : String} {t : Instant} :
    Instant.parse text = .ok t ↔ IsTimestamp (trim text.toList) t := by
  rw [← readTimestamp_eq_ok_iff]
  unfold Instant.parse
  split
  · rename_i t' hread
    rw [hread, Except.ok.injEq, Except.ok.injEq]
  · rename_i fault hread
    rw [hread]
    exact iff_of_false nofun nofun

end EnergyFormula
