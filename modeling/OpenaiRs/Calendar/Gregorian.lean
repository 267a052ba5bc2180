import Mathlib.Data.Nat.Init
import Mathlib.Order.Basic
import Mathlib.Tactic.IntervalCases

/-!
# The Gregorian calendar

Dates from year 0 on, counted forward into the past of the calendar. The number of a date is the number of days before
it, and tells it from every other date.

## Main results

* `Date.eq_of_dayNumber_eq`: different dates have different numbers.
* `exists_parts`: the division of a cycle of 400 years into centuries, cycles of four years, years and days.
* `Moment.eq_of_seconds_eq`: different moments have different numbers of seconds.
-/

namespace OpenaiRs.Calendar

section Dates

/-- Every fourth year, and of the centuries every fourth. -/
def isLeap (year : ℕ) : Bool := year % 4 = 0 && (year % 100 ≠ 0 || year % 400 = 0)

def leapDay (year : ℕ) : ℕ := if isLeap year then 1 else 0

def monthLength (year : ℕ) : ℕ → ℕ
  | 2 => 28 + leapDay year
  | 4 => 30
  | 6 => 30
  | 9 => 30
  | 11 => 30
  | _ => 31

@[ext]
structure Date where
  year : ℕ
  month : ℕ
  day : ℕ
  one_le_month : 1 ≤ month
  month_le : month ≤ 12
  one_le_day : 1 ≤ day
  day_le : day ≤ monthLength year month

def daysBeforeYear : ℕ → ℕ
  | 0 => 0
  | year + 1 => daysBeforeYear year + (365 + leapDay year)

/-- The days of a year before a month; months count from 1. -/
def daysBeforeMonth (year : ℕ) : ℕ → ℕ
  | 0 => 0
  | 1 => 0
  | month + 2 => daysBeforeMonth year (month + 1) + monthLength year (month + 1)

/-- The number of days before a date. -/
def Date.dayNumber (date : Date) : ℕ :=
  daysBeforeYear date.year + daysBeforeMonth date.year date.month + (date.day - 1)

end Dates

section Order

theorem leapDay_le_one (year : ℕ) : leapDay year ≤ 1 := by
  rw [leapDay]
  split <;> omega

theorem daysBeforeMonth_succ (year : ℕ) {month : ℕ} (h : 1 ≤ month) :
    daysBeforeMonth year (month + 1) = daysBeforeMonth year month + monthLength year month := by
  obtain ⟨month, rfl⟩ := Nat.exists_eq_add_of_le' h
  rfl

theorem daysBeforeMonth_le_of_le (year : ℕ) {month month' : ℕ} (hmonth : 1 ≤ month) (h : month ≤ month') :
    daysBeforeMonth year month ≤ daysBeforeMonth year month' := by
  induction month', h using Nat.le_induction with
  | base => exact Nat.le_refl _
  | succ later hlater ih =>
      rw [daysBeforeMonth_succ year (Nat.le_trans hmonth hlater)]
      exact Nat.le_add_right_of_le ih

/-- The twelve months make up the year. -/
theorem daysBeforeMonth_thirteen (year : ℕ) : daysBeforeMonth year 13 = 365 + leapDay year := by
  simp only [daysBeforeMonth, monthLength]
  omega

theorem daysBeforeYear_le_of_le {year year' : ℕ} (h : year ≤ year') : daysBeforeYear year ≤ daysBeforeYear year' := by
  induction year', h using Nat.le_induction with
  | base => exact Nat.le_refl _
  | succ later hlater ih => exact Nat.le_add_right_of_le ih

namespace Date

variable {date date' : Date}

theorem dayNumber_lt_month (date : Date) :
    date.dayNumber < daysBeforeYear date.year + daysBeforeMonth date.year (date.month + 1) := by
  have hfirst := date.one_le_day
  have hlast := date.day_le
  rw [dayNumber, daysBeforeMonth_succ _ date.one_le_month]
  omega

theorem dayNumber_lt_year (date : Date) : date.dayNumber < daysBeforeYear (date.year + 1) := by
  have hmonth := date.dayNumber_lt_month
  have hyear := daysBeforeMonth_le_of_le date.year (Nat.le_add_left 1 date.month) (Nat.succ_le_succ date.month_le)
  rw [daysBeforeMonth_thirteen] at hyear
  rw [daysBeforeYear]
  omega

theorem daysBeforeYear_le (date : Date) : daysBeforeYear date.year ≤ date.dayNumber := by
  rw [dayNumber]
  omega

theorem dayNumber_lt_of_year_lt (h : date.year < date'.year) : date.dayNumber < date'.dayNumber :=
  Nat.lt_of_lt_of_le date.dayNumber_lt_year (Nat.le_trans (daysBeforeYear_le_of_le h) date'.daysBeforeYear_le)

theorem dayNumber_lt_of_month_lt (hyear : date.year = date'.year) (h : date.month < date'.month) :
    date.dayNumber < date'.dayNumber := by
  have hmonth := date.dayNumber_lt_month
  have hlater := daysBeforeMonth_le_of_le date.year (Nat.le_add_left 1 date.month) h
  have hlast : daysBeforeYear date'.year + daysBeforeMonth date'.year date'.month ≤ date'.dayNumber :=
    Nat.le_add_right _ _
  rw [← hyear] at hlast
  omega

theorem eq_of_dayNumber_eq (h : date.dayNumber = date'.dayNumber) : date = date' := by
  have hyear : date.year = date'.year := by
    apply Nat.le_antisymm
    · exact Nat.not_lt.mp fun hlt => Nat.ne_of_lt (dayNumber_lt_of_year_lt hlt) h.symm
    · exact Nat.not_lt.mp fun hlt => Nat.ne_of_lt (dayNumber_lt_of_year_lt hlt) h
  have hmonth : date.month = date'.month := by
    apply Nat.le_antisymm
    · exact Nat.not_lt.mp fun hlt => Nat.ne_of_lt (dayNumber_lt_of_month_lt hyear.symm hlt) h.symm
    · exact Nat.not_lt.mp fun hlt => Nat.ne_of_lt (dayNumber_lt_of_month_lt hyear hlt) h
  ext
  · exact hyear
  · exact hmonth
  · have hfirst := date.one_le_day
    have hfirst' := date'.one_le_day
    rw [dayNumber, dayNumber, hyear, hmonth] at h
    omega

end Date

end Order

section Division

theorem div_eq_of_eq {n k q t : ℕ} (h : n = k * q + t) (ht : t < k) : n / k = q := by
  rw [h, Nat.mul_add_div (by omega), Nat.div_eq_of_lt ht, Nat.add_zero]

/-- The step of a leap day is that of the three divisions. -/
theorem leapDay_succ (year : ℕ) :
    leapDay (year + 1) + (year + 1) / 100 + year / 4 + year / 400 =
      (year + 1) / 4 + (year + 1) / 400 + year / 100 := by
  have hfour : 400 ∣ year + 1 → 100 ∣ year + 1 := Nat.dvd_trans (by decide)
  have hhundred : 100 ∣ year + 1 → 4 ∣ year + 1 := Nat.dvd_trans (by decide)
  simp only [Nat.succ_div, leapDay, isLeap, ← Nat.dvd_iff_mod_eq_zero, Bool.and_eq_true, Bool.or_eq_true,
    decide_eq_true_eq, ne_eq]
  by_cases h4 : 4 ∣ year + 1 <;> by_cases h100 : 100 ∣ year + 1 <;> by_cases h400 : 400 ∣ year + 1 <;>
    simp only [h4, h100, h400, not_true, not_false_eq_true, true_and, false_and, or_false, or_true, if_true, if_false] <;>
      omega

theorem daysBeforeYear_add_leapDay (year : ℕ) :
    daysBeforeYear year + leapDay year + year / 100 = 365 * year + year / 4 + year / 400 + 1 := by
  induction year with
  | zero => rfl
  | succ year ih =>
      have hstep := leapDay_succ year
      rw [daysBeforeYear]
      generalize (year + 1) / 100 = a, (year + 1) / 4 = b, (year + 1) / 400 = c at hstep ⊢
      generalize year / 100 = a', year / 4 = b', year / 400 = c' at hstep ih
      omega

/-- In a cycle of 400 years a year starts behind its centuries, its cycles of four years and the years before it. -/
theorem daysBeforeYear_parts {era c q r : ℕ} (hq : q ≤ 24) (hr : r ≤ 3) (hc : c ≤ 3) :
    daysBeforeYear (400 * era + 100 * c + 4 * q + r) + leapDay (400 * era + 100 * c + 4 * q + r) =
      146097 * era + 36524 * c + 1461 * q + 365 * r + 1 := by
  have hdays := daysBeforeYear_add_leapDay (400 * era + 100 * c + 4 * q + r)
  rw [div_eq_of_eq (k := 100) (q := 4 * era + c) (t := 4 * q + r) (by omega) (by omega),
    div_eq_of_eq (k := 4) (q := 100 * era + 25 * c + q) (t := r) (by omega) (by omega),
    div_eq_of_eq (k := 400) (q := era) (t := 100 * c + 4 * q + r) (by omega) (by omega)] at hdays
  omega

theorem exists_century {days : ℕ} (h : days < 146097) : ∃ c rest, c ≤ 3 ∧ rest ≤ 36524 ∧ (rest = 36524 → c = 3) ∧
    days = 36524 * c + rest ∧ days / 36524 - days / 146096 = c ∧ days / 146096 ≤ days / 36524 := by
  by_cases hlast : days = 146096
  · subst hlast
    exact ⟨3, 36524, by omega, by omega, by omega, by omega, rfl, by decide⟩
  · have hzero : days / 146096 = 0 := Nat.div_eq_of_lt (by omega)
    refine ⟨days / 36524, days % 36524, ?_, ?_, ?_, (Nat.div_add_mod _ _).symm, ?_, ?_⟩ <;> omega

/-- A day of a cycle of 400 years in centuries, cycles of four years, years and days. The last day of a leap year is
the 366th; the last cycle of a century has one exactly if the century is the last one. The years are found by a
division that skips the days of the leap years before. -/
theorem exists_parts {days : ℕ} (h : days < 146097) : ∃ c q r s,
    days = 36524 * c + 1461 * q + 365 * r + s ∧ c ≤ 3 ∧ q ≤ 24 ∧ r ≤ 3 ∧ s ≤ 365 ∧
      (s = 365 → r = 3 ∧ (q = 24 → c = 3)) ∧
      (days - days / 1460 + days / 36524 - days / 146096) / 365 = 100 * c + 4 * q + r := by
  obtain ⟨c, rest, hc, hrest, hlast, hdays, hcentury, hless⟩ := exists_century h
  obtain ⟨q, m, hm, hqm⟩ : ∃ q m, m < 1461 ∧ rest = 1461 * q + m :=
    ⟨rest / 1461, rest % 1461, Nat.mod_lt _ (by omega), (Nat.div_add_mod _ _).symm⟩
  have hskipped : days - days / 1460 + days / 36524 - days / 146096 = days - days / 1460 + c := by
    rw [← hcentury, Nat.add_sub_assoc hless]
  rw [hskipped]
  clear hskipped hcentury hless
  by_cases hcarry : 24 * c + q + m < 1460
  · have hfour : days / 1460 = 25 * c + q := div_eq_of_eq (t := 24 * c + q + m) (by omega) hcarry
    refine ⟨c, q, m / 365, m % 365, by omega, hc, by omega, by omega, by omega, by omega, ?_⟩
    apply div_eq_of_eq (t := m % 365)
    · rw [hfour]
      omega
    · exact Nat.mod_lt _ (by omega)
  · have hfour : days / 1460 = 25 * c + q + 1 := div_eq_of_eq (t := 24 * c + q + m - 1460) (by omega) (by omega)
    refine ⟨c, q, 3, m - 1095, by omega, hc, by omega, by omega, by omega, by omega, ?_⟩
    apply div_eq_of_eq (t := m - 1096)
    · rw [hfour]
      omega
    · omega

/-- From March on the months start at the multiples of 153 fifths of a day. -/
theorem daysBeforeMonth_march (year : ℕ) {month : ℕ} (h : month < 10) :
    daysBeforeMonth year (month + 3) = 59 + leapDay year + (153 * month + 2) / 5 := by
  interval_cases month <;> simp only [daysBeforeMonth, monthLength] <;> omega

theorem monthLength_march (year : ℕ) {month : ℕ} (h : month < 10) :
    monthLength year (month + 3) = (153 * (month + 1) + 2) / 5 - (153 * month + 2) / 5 := by
  interval_cases month <;> rfl

theorem leapDay_parts {era c q r : ℕ} (hr : r = 3) (hq : q ≤ 24) (hc : q = 24 → c = 3) :
    leapDay (400 * era + 100 * c + 4 * q + r + 1) = 1 := by
  rw [leapDay, isLeap]
  by_cases hlast : q = 24
  · have h4 : (400 * era + 100 * c + 4 * q + r + 1) % 4 = 0 := by omega
    have h400 : (400 * era + 100 * c + 4 * q + r + 1) % 400 = 0 := by omega
    simp [h4, h400]
  · have h4 : (400 * era + 100 * c + 4 * q + r + 1) % 4 = 0 := by omega
    have h100 : (400 * era + 100 * c + 4 * q + r + 1) % 100 ≠ 0 := by omega
    simp [h4, h100]

end Division

section Moments

/-- A second of a day. -/
@[ext]
structure Moment where
  date : Date
  hour : ℕ
  minute : ℕ
  second : ℕ
  hour_lt : hour < 24
  minute_lt : minute < 60
  second_lt : second < 60

namespace Moment

/-- The number of seconds before a moment. -/
def seconds (moment : Moment) : ℕ :=
  ((moment.date.dayNumber * 24 + moment.hour) * 60 + moment.minute) * 60 + moment.second

theorem eq_of_seconds_eq {moment moment' : Moment} (h : moment.seconds = moment'.seconds) : moment = moment' := by
  have hhour := moment.hour_lt
  have hminute := moment.minute_lt
  have hsecond := moment.second_lt
  have hhour' := moment'.hour_lt
  have hminute' := moment'.minute_lt
  have hsecond' := moment'.second_lt
  rw [seconds, seconds] at h
  have hday : moment.date.dayNumber = moment'.date.dayNumber := by omega
  ext1
  · exact Date.eq_of_dayNumber_eq hday
  · omega
  · omega
  · omega

end Moment

end Moments

end OpenaiRs.Calendar
