import ColumnAtlas.TomlScalar
import ColumnAtlas.Proofs.PrintedJson
import Mathlib

namespace ColumnAtlas.Toml

open Json (isDigit decimal isDigit_iff decimal_concat)

/-- The last digits of a number, as many as there are places. -/
def padded : Nat → Nat → List Char
  | 0, _ => []
  | places + 1, n => padded places (n / 10) ++ [Nat.digitChar (n % 10)]

/-- A day that the calendar has. -/
structure OnCalendar (year month day : Nat) : Prop where
  year_le : year ≤ 9999
  month_pos : 1 ≤ month
  month_le : month ≤ 12
  day_pos : 1 ≤ day
  day_le : day ≤ daysInMonth year month

/-- A second that the clock has, with leap seconds. -/
structure OnClock (hour minute second : Nat) : Prop where
  hour_le : hour ≤ 23
  minute_le : minute ≤ 59
  second_le : second ≤ 60

def dateText (year month day : Nat) : List Char :=
  padded 4 year ++ '-' :: (padded 2 month ++ '-' :: padded 2 day)

def clockText (hour minute second : Nat) : List Char :=
  padded 2 hour ++ ':' :: (padded 2 minute ++ ':' :: padded 2 second)

/-- The fraction of a second behind a time, if it has one. -/
inductive Fraction : List Char → Prop
  | absent : Fraction []
  | digits {ds : List Char} (hne : ds ≠ []) (hd : ∀ c ∈ ds, isDigit c) : Fraction ('.' :: ds)

/-- The distance to universal time behind a time, if it has one. -/
inductive Offset : List Char → Prop
  | absent : Offset []
  | universal {c : Char} (h : c = 'Z' ∨ c = 'z') : Offset [c]
  | apart {sign : Char} {hour minute : Nat} (hsign : sign = '+' ∨ sign = '-') (hhour : hour ≤ 23)
      (hminute : minute ≤ 59) : Offset (sign :: (padded 2 hour ++ ':' :: padded 2 minute))

section Digits

variable {cs : List Char} {places n low high : Nat}

theorem digitChar_spec : ∀ d, d < 10 →
    isDigit (Nat.digitChar d) ∧ (Nat.digitChar d).toNat - 48 = d := by
  decide

theorem digitChar_of_isDigit {c : Char} (h : isDigit c) : Nat.digitChar (c.toNat - 48) = c := by
  have hchar : ∀ d, d < 10 → Nat.digitChar d = Char.ofNat (d + 48) := by decide
  obtain ⟨hlow, hhigh⟩ := isDigit_iff.mp h
  rw [hchar _ (by omega), Nat.sub_add_cancel hlow, Char.ofNat_toNat]

theorem padded_decimal (h : ∀ c ∈ cs, isDigit c) : padded cs.length (decimal cs) = cs := by
  induction cs using List.reverseRecOn with
  | nil => rfl
  | append_singleton cs c ih =>
    have hc : isDigit c := h c (by simp)
    have hrange := isDigit_iff.mp hc
    have hrest := ih fun d hd => h d (List.mem_append_left [c] hd)
    have hdiv : (decimal cs * 10 + (c.toNat - 48)) / 10 = decimal cs := by omega
    have hmod : (decimal cs * 10 + (c.toNat - 48)) % 10 = c.toNat - 48 := by omega
    rw [List.length_append, List.length_singleton, decimal_concat, padded, hdiv, hmod,
      digitChar_of_isDigit hc, hrest]

theorem isDigit_of_mem_padded {c : Char} (h : c ∈ padded places n) : isDigit c := by
  induction places generalizing n with
  | zero => cases h
  | succ places ih =>
    rcases List.mem_append.mp h with h | h
    · exact ih h
    · rw [List.mem_singleton.mp h]
      exact (digitChar_spec _ (Nat.mod_lt n (by decide))).1

theorem decimal_padded (h : n < 10 ^ places) : decimal (padded places n) = n := by
  induction places generalizing n with
  | zero =>
    rw [Nat.pow_zero, Nat.lt_one_iff] at h
    rw [h]
    rfl
  | succ places ih =>
    have hlt : n / 10 < 10 ^ places := by
      rw [Nat.pow_succ] at h
      exact Nat.div_lt_of_lt_mul (by rwa [Nat.mul_comm])
    rw [padded, decimal_concat, ih hlt, (digitChar_spec _ (Nat.mod_lt n (by decide))).2]
    omega

theorem isField_iff : isField low high cs ↔
    (∀ c ∈ cs, isDigit c) ∧ low ≤ decimal cs ∧ decimal cs ≤ high := by
  simp [isField, and_assoc]

theorem isField_padded (h : n < 10 ^ places) :
    isField low high (padded places n) ↔ low ≤ n ∧ n ≤ high := by
  rw [isField_iff, decimal_padded h]
  exact and_iff_right fun c hc => isDigit_of_mem_padded hc

end Digits

section Moments

variable {cs : List Char}

theorem daysInMonth_le (year month : Nat) : daysInMonth year month ≤ 31 := by
  unfold daysInMonth
  split
  next => split <;> decide
  next => split <;> decide

/-- The months make up a year, which has one more day in a leap year. -/
theorem sum_daysInMonth (year : Nat) : ((List.range' 1 12).map (daysInMonth year)).sum =
    if isLeapYear year then 366 else 365 := by
  unfold daysInMonth
  cases isLeapYear year <;> rfl

/-- Dates are the days of the calendar up to the year 9999, each in one spelling. -/
theorem isDate_iff : isDate cs ↔
    ∃ year month day, OnCalendar year month day ∧ cs = dateText year month day := by
  constructor
  · intro h
    unfold isDate at h
    split at h
    next y₁ y₂ y₃ y₄ m₁ m₂ d₁ d₂ =>
      simp only [Bool.and_eq_true, isField_iff] at h
      obtain ⟨⟨⟨hy, _, hyear⟩, hm, hpos, hmonth⟩, hd, hfirst, hday⟩ := h
      refine ⟨_, _, _, ⟨hyear, hpos, hmonth, hfirst, hday⟩, ?_⟩
      have hyears : padded 4 (decimal [y₁, y₂, y₃, y₄]) = _ := padded_decimal hy
      have hmonths : padded 2 (decimal [m₁, m₂]) = _ := padded_decimal hm
      have hdays : padded 2 (decimal [d₁, d₂]) = _ := padded_decimal hd
      rw [dateText, hyears, hmonths, hdays]
      rfl
    next => cases h
  · rintro ⟨year, month, day, h, rfl⟩
    have hfields : isDate (dateText year month day) = (isField 0 9999 (padded 4 year) &&
      isField 1 12 (padded 2 month) && isField 1
        (daysInMonth (decimal (padded 4 year)) (decimal (padded 2 month))) (padded 2 day)) := rfl
    have hyear := h.year_le
    have hmonth := h.month_le
    have hday := Nat.le_trans h.day_le (daysInMonth_le year month)
    rw [hfields, decimal_padded (by omega), decimal_padded (by omega)]
    simp only [Bool.and_eq_true]
    rw [isField_padded (by omega), isField_padded (by omega), isField_padded (by omega)]
    exact ⟨⟨⟨Nat.zero_le year, hyear⟩, h.month_pos, hmonth⟩, h.day_pos, h.day_le⟩

theorem isClock_iff : isClock cs ↔
    ∃ hour minute second, OnClock hour minute second ∧ cs = clockText hour minute second := by
  constructor
  · intro h
    unfold isClock at h
    split at h
    next h₁ h₂ m₁ m₂ s₁ s₂ =>
      simp only [Bool.and_eq_true, isField_iff] at h
      obtain ⟨⟨⟨hh, _, hhour⟩, hm, _, hminute⟩, hs, _, hsecond⟩ := h
      refine ⟨_, _, _, ⟨hhour, hminute, hsecond⟩, ?_⟩
      have hhours : padded 2 (decimal [h₁, h₂]) = _ := padded_decimal hh
      have hminutes : padded 2 (decimal [m₁, m₂]) = _ := padded_decimal hm
      have hseconds : padded 2 (decimal [s₁, s₂]) = _ := padded_decimal hs
      rw [clockText, hhours, hminutes, hseconds]
      rfl
    next => cases h
  · rintro ⟨hour, minute, second, h, rfl⟩
    have hfields : isClock (clockText hour minute second) = (isField 0 23 (padded 2 hour) &&
      isField 0 59 (padded 2 minute) && isField 0 60 (padded 2 second)) := rfl
    have hhour := h.hour_le
    have hminute := h.minute_le
    have hsecond := h.second_le
    rw [hfields]
    simp only [Bool.and_eq_true]
    rw [isField_padded (by omega), isField_padded (by omega), isField_padded (by omega)]
    exact ⟨⟨⟨Nat.zero_le hour, hhour⟩, Nat.zero_le minute, hminute⟩, Nat.zero_le second, hsecond⟩

/-- Times of day are the seconds of the clock, perhaps with a fraction. -/
theorem isTime_iff : isTime cs ↔ ∃ hour minute second fraction, OnClock hour minute second ∧
    Fraction fraction ∧ cs = clockText hour minute second ++ fraction := by
  constructor
  · intro h
    obtain ⟨hclock, hfraction⟩ := (Bool.and_eq_true _ _).mp h
    obtain ⟨hour, minute, second, hon, htext⟩ := isClock_iff.mp hclock
    refine ⟨hour, minute, second, cs.drop 8, hon, ?_, ?_⟩
    · split at hfraction
      next hdrop =>
        rw [hdrop]
        exact .absent
      next ds hdrop =>
        rw [hdrop]
        simp only [Bool.and_eq_true, Bool.not_eq_true', List.isEmpty_eq_false_iff,
          List.all_eq_true] at hfraction
        exact .digits hfraction.1 hfraction.2
      next => cases hfraction
    · rw [← htext, List.take_append_drop]
  · rintro ⟨hour, minute, second, fraction, hon, hfraction, rfl⟩
    have htake : (clockText hour minute second ++ fraction).take 8 =
      clockText hour minute second := rfl
    have hdrop : (clockText hour minute second ++ fraction).drop 8 = fraction := rfl
    have hclock := isClock_iff.mpr ⟨hour, minute, second, hon, rfl⟩
    rw [isTime, htake, hdrop, hclock, Bool.true_and]
    cases hfraction with
    | absent => rfl
    | digits hne hd => simpa [hne] using hd

theorem isOffset_iff : isOffset cs ↔ ∃ sign hour minute, (sign = '+' ∨ sign = '-') ∧ hour ≤ 23 ∧
    minute ≤ 59 ∧ cs = sign :: (padded 2 hour ++ ':' :: padded 2 minute) := by
  constructor
  · intro h
    unfold isOffset at h
    split at h
    next sign h₁ h₂ m₁ m₂ =>
      simp only [Bool.and_eq_true, Bool.or_eq_true, decide_eq_true_eq, isField_iff] at h
      obtain ⟨⟨hsign, hh, _, hhour⟩, hm, _, hminute⟩ := h
      have hhours : padded 2 (decimal [h₁, h₂]) = _ := padded_decimal hh
      have hminutes : padded 2 (decimal [m₁, m₂]) = _ := padded_decimal hm
      refine ⟨sign, _, _, hsign, hhour, hminute, ?_⟩
      rw [hhours, hminutes]
      rfl
    next => cases h
  · rintro ⟨sign, hour, minute, hsign, hhour, hminute, rfl⟩
    have hfields : isOffset (sign :: (padded 2 hour ++ ':' :: padded 2 minute)) =
      ((sign = '+' || sign = '-') && isField 0 23 (padded 2 hour) &&
        isField 0 59 (padded 2 minute)) := rfl
    rw [hfields]
    simp only [Bool.and_eq_true, Bool.or_eq_true, decide_eq_true_eq]
    rw [isField_padded (by omega), isField_padded (by omega)]
    exact ⟨⟨hsign, Nat.zero_le hour, hhour⟩, Nat.zero_le minute, hminute⟩

theorem isTimeChar_of_isDigit {c : Char} (h : isDigit c) : isTimeChar c := by
  rw [isTimeChar, h]
  rfl

theorem isTimeChar_of_isTime (h : isTime cs) {c : Char} (hc : c ∈ cs) : isTimeChar c := by
  obtain ⟨hour, minute, second, fraction, _, hfraction, rfl⟩ := isTime_iff.mp h
  rcases List.mem_append.mp hc with hc | hc
  · simp only [clockText, List.mem_append, List.mem_cons] at hc
    rcases hc with hc | rfl | hc | rfl | hc
    · exact isTimeChar_of_isDigit (isDigit_of_mem_padded hc)
    · rfl
    · exact isTimeChar_of_isDigit (isDigit_of_mem_padded hc)
    · rfl
    · exact isTimeChar_of_isDigit (isDigit_of_mem_padded hc)
  · cases hfraction with
    | absent => cases hc
    | digits _ hd =>
      rcases List.mem_cons.mp hc with rfl | hc
      · rfl
      · exact isTimeChar_of_isDigit (hd c hc)

theorem Offset.not_isTimeChar {offset : List Char} (h : Offset offset) (c : Char)
    (hc : offset.head? = some c) : isTimeChar c = false := by
  cases h with
  | absent => cases hc
  | universal h =>
    obtain rfl := Option.some.inj hc
    rcases h with rfl | rfl <;> rfl
  | apart hsign =>
    obtain rfl := Option.some.inj hc
    rcases hsign with rfl | rfl <;> rfl

theorem isOffsetTime_iff : isOffsetTime cs ↔
    ∃ time offset, isTime time ∧ Offset offset ∧ cs = time ++ offset := by
  constructor
  · intro h
    obtain ⟨htime, hoffset⟩ := (Bool.and_eq_true _ _).mp h
    refine ⟨_, _, htime, ?_, List.takeWhile_append_dropWhile.symm⟩
    simp only [Bool.or_eq_true, List.isEmpty_iff, decide_eq_true_eq] at hoffset
    rcases hoffset with ((hnone | hupper) | hlower) | happart
    · rw [hnone]
      exact .absent
    · rw [hupper]
      exact .universal (.inl rfl)
    · rw [hlower]
      exact .universal (.inr rfl)
    · obtain ⟨sign, hour, minute, hsign, hhour, hminute, htext⟩ := isOffset_iff.mp happart
      rw [htext]
      exact .apart hsign hhour hminute
  · rintro ⟨time, offset, htime, hoffset, rfl⟩
    obtain ⟨htake, hdrop⟩ := Json.takeWhile_word (fun c => isTimeChar_of_isTime htime)
      hoffset.not_isTimeChar
    rw [isOffsetTime, htake, hdrop, htime, Bool.true_and]
    cases hoffset with
    | absent => rfl
    | universal h => rcases h with rfl | rfl <;> rfl
    | apart hsign hhour hminute =>
      rw [isOffset_iff.mpr ⟨_, _, _, hsign, hhour, hminute, rfl⟩, Bool.or_true]

theorem isDateTime_iff : isDateTime cs ↔ ∃ date sep time, isDate date ∧
    (sep = 'T' ∨ sep = 't') ∧ isOffsetTime time ∧ cs = date ++ sep :: time := by
  constructor
  · intro h
    obtain ⟨hdate, htime⟩ := (Bool.and_eq_true _ _).mp h
    have hcs := List.take_append_drop 10 cs
    split at htime
    next time hdrop =>
      rw [hdrop] at hcs
      exact ⟨_, 'T', time, hdate, .inl rfl, htime, hcs.symm⟩
    next time hdrop =>
      rw [hdrop] at hcs
      exact ⟨_, 't', time, hdate, .inr rfl, htime, hcs.symm⟩
    next => cases htime
  · rintro ⟨date, sep, time, hdate, hsep, htime, rfl⟩
    obtain ⟨year, month, day, _, rfl⟩ := isDate_iff.mp hdate
    have htake : (dateText year month day ++ sep :: time).take 10 = dateText year month day := rfl
    have hdrop : (dateText year month day ++ sep :: time).drop 10 = sep :: time := rfl
    rw [isDateTime, htake, hdrop, hdate, Bool.true_and]
    rcases hsep with rfl | rfl
    · exact htime
    · exact htime

end Moments

end ColumnAtlas.Toml
