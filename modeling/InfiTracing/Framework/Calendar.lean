import Mathlib.Data.Nat.Find
import Mathlib.Tactic.Common

/-!
# The proleptic Gregorian calendar

Days are numbered from 1 January of the year 1, which is day 0.  `Date.dayNumber` counts the
days before a date, and `Date.ofDayNumber` finds the date of a day: the last year, and in it the
last month, that does not begin after it.  `dayNumber_ofDayNumber` says that the two fit
together.

A `Date` is one that the calendar has: the proof fields keep the month and the day in range.
A `UtcTime` is a date and a time of day, counted in seconds from 1 January 1970 by
`UtcTime.seconds`; `UtcTime.ofSeconds` is its inverse on the times from then on.
-/

namespace InfiTracing.Framework

/-- A year with a 29 February. -/
def IsLeap (year : ℕ) : Prop := (year % 4 = 0 ∧ year % 100 ≠ 0) ∨ year % 400 = 0

instance (year : ℕ) : Decidable (IsLeap year) := inferInstanceAs (Decidable (_ ∨ _))

/-- The days of a month. -/
def monthDays (year : ℕ) : ℕ → ℕ
  | 2 => if IsLeap year then 29 else 28
  | 4 | 6 | 9 | 11 => 30
  | _ => 31

/-- The days from 1 January of the year 1 to that of the year. -/
def daysBeforeYear (year : ℕ) : ℕ :=
  365 * (year - 1) + (year - 1) / 4 - (year - 1) / 100 + (year - 1) / 400

/-- The days from 1 January to the first of the month. -/
def daysBeforeMonth (year : ℕ) : ℕ → ℕ
  | 0 | 1 => 0
  | month + 2 => daysBeforeMonth year (month + 1) + monthDays year (month + 1)

/-- A date of the calendar. -/
structure Date where
  year : ℕ
  month : ℕ
  day : ℕ
  year_pos : 1 ≤ year
  month_pos : 1 ≤ month
  month_le : month ≤ 12
  day_pos : 1 ≤ day
  day_le : day ≤ monthDays year month
  deriving DecidableEq

/-- The days before the date. -/
def Date.dayNumber (d : Date) : ℕ :=
  daysBeforeYear d.year + daysBeforeMonth d.year d.month + (d.day - 1)

/-! ## Years -/

lemma daysBeforeYear_succ {year : ℕ} (h : 1 ≤ year) :
    daysBeforeYear (year + 1) = daysBeforeYear year + if IsLeap year then 366 else 365 := by
  obtain ⟨z, rfl⟩ := Nat.exists_eq_add_of_le' h
  simp only [daysBeforeYear, Nat.add_sub_cancel]
  by_cases hleap : IsLeap (z + 1)
  · rw [if_pos hleap]
    obtain ⟨hfour, hcentury⟩ | hcycle := hleap <;> omega
  · rw [if_neg hleap]
    obtain ⟨hor, hcycle⟩ := not_or.mp hleap
    rcases not_and_or.mp hor with hfour | hcentury
    · have hquarter : (z + 1) / 4 = z / 4 := by omega
      have hcentury : (z + 1) / 100 = z / 100 := by omega
      have hcycle : (z + 1) / 400 = z / 400 := by omega
      have hle : z / 100 ≤ z / 4 := by omega
      rw [hquarter, hcentury, hcycle]
      omega
    · have hcentury : (z + 1) % 100 = 0 := not_not.mp hcentury
      omega

lemma le_daysBeforeYear (year : ℕ) : 365 * (year - 1) ≤ daysBeforeYear year := by
  unfold daysBeforeYear
  omega

/-- The year of a day. -/
def yearOf (n : ℕ) : ℕ := Nat.findGreatest (fun year => daysBeforeYear year ≤ n) (n / 365 + 1)

lemma yearOf_pos (n : ℕ) : 1 ≤ yearOf n :=
  Nat.le_findGreatest (by omega) (Nat.zero_le n)

lemma daysBeforeYear_yearOf_le (n : ℕ) : daysBeforeYear (yearOf n) ≤ n :=
  Nat.findGreatest_spec (m := 1) (P := fun year => daysBeforeYear year ≤ n) (by omega)
    (Nat.zero_le n)

lemma lt_daysBeforeYear_succ (n : ℕ) : n < daysBeforeYear (yearOf n + 1) := by
  rcases Nat.lt_or_ge (n / 365 + 1) (yearOf n + 1) with hlast | hle
  · -- the search began at this year, before which there are more days than `n`
    have hmany := le_daysBeforeYear (yearOf n + 1)
    omega
  · have hnot := Nat.findGreatest_is_greatest (Nat.lt_succ_self (yearOf n)) hle
    exact not_le.mp hnot

/-! ## Months -/

lemma daysBeforeMonth_succ (year : ℕ) {month : ℕ} (h : 1 ≤ month) :
    daysBeforeMonth year (month + 1) = daysBeforeMonth year month + monthDays year month := by
  obtain ⟨month, rfl⟩ := Nat.exists_eq_add_of_le' h
  rfl

lemma daysBeforeMonth_thirteen (year : ℕ) :
    daysBeforeMonth year 13 = if IsLeap year then 366 else 365 := by
  simp only [daysBeforeMonth, monthDays]
  split_ifs <;> rfl

/-- The month of a day of the year, counted from 0. -/
def monthOf (year r : ℕ) : ℕ := Nat.findGreatest (fun month => daysBeforeMonth year month ≤ r) 12

lemma monthOf_pos (year r : ℕ) : 1 ≤ monthOf year r :=
  Nat.le_findGreatest (by omega) (Nat.zero_le r)

lemma monthOf_le (year r : ℕ) : monthOf year r ≤ 12 := Nat.findGreatest_le 12

lemma daysBeforeMonth_monthOf_le (year r : ℕ) : daysBeforeMonth year (monthOf year r) ≤ r :=
  Nat.findGreatest_spec (m := 1) (P := fun month => daysBeforeMonth year month ≤ r) (by omega)
    (Nat.zero_le r)

lemma lt_daysBeforeMonth_succ {year r : ℕ} (hr : r < daysBeforeMonth year 13) :
    r < daysBeforeMonth year (monthOf year r + 1) := by
  rcases Nat.lt_or_ge 12 (monthOf year r + 1) with hlast | hle
  · have hle := monthOf_le year r
    rwa [show monthOf year r + 1 = 13 by omega]
  · have hnot := Nat.findGreatest_is_greatest (Nat.lt_succ_self (monthOf year r)) hle
    exact not_le.mp hnot

/-! ## The date of a day -/

/-- A day is within its year. -/
lemma sub_lt_daysBeforeMonth (n : ℕ) :
    n - daysBeforeYear (yearOf n) < daysBeforeMonth (yearOf n) 13 := by
  have hle := daysBeforeYear_yearOf_le n
  have hlt := lt_daysBeforeYear_succ n
  rw [daysBeforeYear_succ (yearOf_pos n)] at hlt
  rw [daysBeforeMonth_thirteen]
  omega

/-- The date of a day. -/
def Date.ofDayNumber (n : ℕ) : Date where
  year := yearOf n
  month := monthOf (yearOf n) (n - daysBeforeYear (yearOf n))
  day := n - daysBeforeYear (yearOf n) -
    daysBeforeMonth (yearOf n) (monthOf (yearOf n) (n - daysBeforeYear (yearOf n))) + 1
  year_pos := yearOf_pos n
  month_pos := monthOf_pos _ _
  month_le := monthOf_le _ _
  day_pos := Nat.succ_pos _
  day_le := by
    have hle := daysBeforeMonth_monthOf_le (yearOf n) (n - daysBeforeYear (yearOf n))
    have hlt := lt_daysBeforeMonth_succ (sub_lt_daysBeforeMonth n)
    rw [daysBeforeMonth_succ _ (monthOf_pos _ _)] at hlt
    omega

/-- **A day is the day of its date.** -/
theorem Date.dayNumber_ofDayNumber (n : ℕ) : (Date.ofDayNumber n).dayNumber = n := by
  have hyear := daysBeforeYear_yearOf_le n
  have hmonth := daysBeforeMonth_monthOf_le (yearOf n) (n - daysBeforeYear (yearOf n))
  show daysBeforeYear (yearOf n) +
    daysBeforeMonth (yearOf n) (monthOf (yearOf n) (n - daysBeforeYear (yearOf n))) +
    (n - daysBeforeYear (yearOf n) -
      daysBeforeMonth (yearOf n) (monthOf (yearOf n) (n - daysBeforeYear (yearOf n))) + 1 - 1) = n
  omega

lemma Date.day_le_thirtyOne (d : Date) : d.day ≤ 31 := by
  have hle := d.day_le
  unfold monthDays at hle
  split at hle
  · split_ifs at hle <;> omega
  all_goals omega

/-! ## Times -/

/-- The day of 1 January 1970. -/
def epochDay : ℕ := 719162

example : Date.ofDayNumber epochDay = ⟨1970, 1, 1, by decide, by decide, by decide, by decide,
    by decide⟩ := by decide +kernel

/-- A second of a day, without leap seconds. -/
structure UtcTime where
  date : Date
  hour : ℕ
  minute : ℕ
  second : ℕ
  hour_lt : hour < 24
  minute_lt : minute < 60
  second_lt : second < 60
  deriving DecidableEq

/-- The seconds since 1 January 1970. -/
def UtcTime.seconds (u : UtcTime) : ℤ :=
  86400 * (u.date.dayNumber - epochDay) + 3600 * u.hour + 60 * u.minute + u.second

/-- The time `t` seconds after the beginning of 1970. -/
def UtcTime.ofSeconds (t : ℕ) : UtcTime where
  date := Date.ofDayNumber (epochDay + t / 86400)
  hour := t % 86400 / 3600
  minute := t % 3600 / 60
  second := t % 60
  hour_lt := by omega
  minute_lt := by omega
  second_lt := by omega

theorem UtcTime.seconds_ofSeconds (t : ℕ) : (ofSeconds t).seconds = t := by
  have hday := Date.dayNumber_ofDayNumber (epochDay + t / 86400)
  have hhour : t % 86400 = 3600 * (t % 86400 / 3600) + t % 3600 := by omega
  have hminute : t % 3600 = 60 * (t % 3600 / 60) + t % 60 := by omega
  have hsplit := Nat.div_add_mod t 86400
  show 86400 * (((Date.ofDayNumber (epochDay + t / 86400)).dayNumber : ℤ) - epochDay) +
    3600 * (t % 86400 / 3600 : ℕ) + 60 * (t % 3600 / 60 : ℕ) + (t % 60 : ℕ) = t
  rw [hday]
  omega

/-- The time of six numbers, if they are one. -/
def UtcTime.ofFields (year month day hour minute second : ℕ) : Option UtcTime :=
  if h : (1 ≤ year ∧ 1 ≤ month ∧ month ≤ 12 ∧ 1 ≤ day ∧ day ≤ monthDays year month) ∧
      hour < 24 ∧ minute < 60 ∧ second < 60 then
    some
      { date := ⟨year, month, day, h.1.1, h.1.2.1, h.1.2.2.1, h.1.2.2.2.1, h.1.2.2.2.2⟩
        hour := hour
        minute := minute
        second := second
        hour_lt := h.2.1
        minute_lt := h.2.2.1
        second_lt := h.2.2.2 }
  else
    none

lemma UtcTime.ofFields_self (u : UtcTime) :
    ofFields u.date.year u.date.month u.date.day u.hour u.minute u.second = some u :=
  dif_pos ⟨⟨u.date.year_pos, u.date.month_pos, u.date.month_le, u.date.day_pos, u.date.day_le⟩,
    u.hour_lt, u.minute_lt, u.second_lt⟩

end InfiTracing.Framework
