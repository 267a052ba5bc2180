import OpenaiRs.Calendar.Gregorian

/-!
# Timestamps

`format_utc_timestamp` of `xtask/src/spec.rs`, which dates the record of a download.

## Implementation notes

The source counts in `i64`. No value of the function is negative and none comes near the bound, so they are natural
numbers here.
-/

namespace OpenaiRs.Provenance

open Calendar

section Definitions

/-- The year, the month and the day that `format_utc_timestamp` computes. -/
def civil (days : ℕ) : ℕ × ℕ × ℕ :=
  let shiftedDays := days + 719468
  let era := shiftedDays / 146097
  let dayOfEra := shiftedDays - era * 146097
  let yearOfEra := (dayOfEra - dayOfEra / 1460 + dayOfEra / 36524 - dayOfEra / 146096) / 365
  let year := yearOfEra + era * 400
  let dayOfYear := dayOfEra - (365 * yearOfEra + yearOfEra / 4 - yearOfEra / 100)
  let monthPrime := (5 * dayOfYear + 2) / 153
  let day := dayOfYear - (153 * monthPrime + 2) / 5 + 1
  let month := if monthPrime < 10 then monthPrime + 3 else monthPrime - 9
  (if month ≤ 2 then year + 1 else year, month, day)

/-- A number in decimal digits, with zeros in front up to a width. -/
def padded (width n : ℕ) : String :=
  String.ofList (List.replicate (width - (Nat.toDigits 10 n).length) '0' ++ Nat.toDigits 10 n)

def timestamp (year month day hour minute second : ℕ) : String :=
  padded 4 year ++ "-" ++ padded 2 month ++ "-" ++ padded 2 day ++ "T" ++ padded 2 hour ++ ":" ++ padded 2 minute ++
    ":" ++ padded 2 second ++ "Z"

/-- `format_utc_timestamp`. -/
def formatUtcTimestamp (seconds : ℕ) : String :=
  let days := seconds / 86400
  let daySeconds := seconds % 86400
  let (year, month, day) := civil days
  timestamp year month day (daySeconds / 3600) (daySeconds % 3600 / 60) (daySeconds % 60)

end Definitions

section Dates

theorem years_of_parts {c q r : ℕ} (hq : q ≤ 24) (hr : r ≤ 3) :
    365 * (100 * c + 4 * q + r) + (100 * c + 4 * q + r) / 4 - (100 * c + 4 * q + r) / 100 =
      36524 * c + 1461 * q + 365 * r := by
  rw [div_eq_of_eq (k := 4) (q := 25 * c + q) (t := r) (by omega) (by omega),
    div_eq_of_eq (k := 100) (q := c) (t := 4 * q + r) (by omega) (by omega)]
  omega

/-- The month of a day of a year that starts in March. -/
theorem month_of_dayOfYear {s monthPrime : ℕ} (hs : s ≤ 365) (h : monthPrime = (5 * s + 2) / 153) :
    monthPrime ≤ 11 ∧ (153 * monthPrime + 2) / 5 ≤ s ∧ s < (153 * (monthPrime + 1) + 2) / 5 := by
  have hlow : 153 * monthPrime ≤ 5 * s + 2 := h ▸ Nat.mul_div_le _ _
  have hhigh : 5 * s + 2 < 153 * (monthPrime + 1) := h ▸ Nat.lt_mul_div_succ _ (by decide)
  refine ⟨by omega, by omega, by omega⟩

/-- The date of a day from March on. -/
theorem exists_date_march (year : ℕ) {s monthPrime : ℕ} (hs : s ≤ 365) (h : monthPrime = (5 * s + 2) / 153)
    (hmonth : monthPrime < 10) : ∃ date : Date, date.year = year ∧ date.month = monthPrime + 3 ∧
      date.day = s - (153 * monthPrime + 2) / 5 + 1 ∧
      date.dayNumber = daysBeforeYear year + 59 + leapDay year + s := by
  obtain ⟨-, hstart, hend⟩ := month_of_dayOfYear hs h
  have hlength := monthLength_march year hmonth
  have hbefore := daysBeforeMonth_march year hmonth
  refine ⟨⟨year, monthPrime + 3, s - (153 * monthPrime + 2) / 5 + 1, by omega, by omega, by omega, ?_⟩, rfl, rfl, rfl, ?_⟩
  · rw [hlength]
    omega
  · rw [Date.dayNumber]
    simp only [hbefore]
    omega

/-- The date of one of the days behind December. -/
theorem exists_date_january (year : ℕ) {s monthPrime : ℕ} (hs : s ≤ 365) (h : monthPrime = (5 * s + 2) / 153)
    (hmonth : ¬ monthPrime < 10) (hleap : s = 365 → leapDay (year + 1) = 1) :
    ∃ date : Date, date.year = year + 1 ∧ date.month = monthPrime - 9 ∧
      date.day = s - (153 * monthPrime + 2) / 5 + 1 ∧
      date.dayNumber = daysBeforeYear year + 59 + leapDay year + s := by
  obtain ⟨hlast, hstart, hend⟩ := month_of_dayOfYear hs h
  obtain rfl | rfl : monthPrime = 10 ∨ monthPrime = 11 := by omega
  · refine ⟨⟨year + 1, 1, s - 306 + 1, by omega, by omega, by omega, ?_⟩, rfl, rfl, rfl, ?_⟩
    · rw [monthLength] <;> omega
    · simp only [Date.dayNumber, daysBeforeYear, daysBeforeMonth]
      omega
  · refine ⟨⟨year + 1, 2, s - 337 + 1, by omega, by omega, by omega, ?_⟩, rfl, rfl, rfl, ?_⟩
    · rw [monthLength]
      omega
    · simp only [Date.dayNumber, daysBeforeYear, daysBeforeMonth, monthLength]
      omega

/-- What is computed is a date, and it stands where the number of days says. -/
theorem exists_date_civil (days : ℕ) :
    ∃ date : Date, civil days = (date.year, date.month, date.day) ∧ date.dayNumber = days + 719528 := by
  obtain ⟨c, q, r, s, hdays, hc, hq, hr, hs, hlast, hyears⟩ :=
    exists_parts (Nat.mod_lt (days + 719468) (by decide : 0 < 146097))
  have hera : days + 719468 - (days + 719468) / 146097 * 146097 = (days + 719468) % 146097 := by
    rw [Nat.mod_eq_sub_div_mul]
  have hsplit := Nat.div_add_mod (days + 719468) 146097
  rw [civil]
  simp only [hera, hyears, years_of_parts hq hr]
  generalize (days + 719468) / 146097 = era at hsplit ⊢
  generalize (days + 719468) % 146097 = dayOfEra at hdays hsplit ⊢
  have hday : dayOfEra - (36524 * c + 1461 * q + 365 * r) = s := by omega
  have hyear : 100 * c + 4 * q + r + era * 400 = 400 * era + 100 * c + 4 * q + r := by omega
  rw [hday, hyear]
  have hparts : daysBeforeYear (400 * era + 100 * c + 4 * q + r) + leapDay (400 * era + 100 * c + 4 * q + r) =
      146097 * era + 36524 * c + 1461 * q + 365 * r + 1 := daysBeforeYear_parts hq hr hc
  by_cases hmonth : (5 * s + 2) / 153 < 10
  · obtain ⟨date, hdateYear, hdateMonth, hdateDay, hnumber⟩ :=
      exists_date_march (400 * era + 100 * c + 4 * q + r) hs rfl hmonth
    refine ⟨date, ?_, by omega⟩
    rw [if_pos hmonth, if_neg (by omega), hdateYear, hdateMonth, hdateDay]
  · have hleap : s = 365 → leapDay (400 * era + 100 * c + 4 * q + r + 1) = 1 := fun hs' =>
      leapDay_parts (hlast hs').1 hq (hlast hs').2
    obtain ⟨hmonthLe, -, -⟩ := month_of_dayOfYear hs rfl
    obtain ⟨date, hdateYear, hdateMonth, hdateDay, hnumber⟩ :=
      exists_date_january (400 * era + 100 * c + 4 * q + r) hs rfl hmonth hleap
    refine ⟨date, ?_, by omega⟩
    rw [if_neg hmonth, if_pos (by omega), hdateYear, hdateMonth, hdateDay]

end Dates

section Moments

/-- January 1 of 1970, at midnight. -/
def epoch : Moment := ⟨⟨1970, 1, 1, by decide, by decide, by decide, by decide⟩, 0, 0, 0, by decide, by decide, by decide⟩

def momentText (moment : Moment) : String :=
  timestamp moment.date.year moment.date.month moment.date.day moment.hour moment.minute moment.second

theorem dayNumber_epoch : epoch.date.dayNumber = 719528 := by
  have hyear := daysBeforeYear_add_leapDay 1970
  have hleap : leapDay 1970 = 0 := by decide
  rw [hleap] at hyear
  simp only [Date.dayNumber, epoch, daysBeforeMonth]
  omega

theorem seconds_epoch : epoch.seconds = 719528 * 86400 := by
  rw [Moment.seconds, dayNumber_epoch]
  rfl

/-- A time is written as the one moment that lies as many seconds behind the epoch. -/
theorem formatUtcTimestamp_moment (seconds : ℕ) :
    ∃ moment : Moment, moment.seconds = epoch.seconds + seconds ∧ formatUtcTimestamp seconds = momentText moment ∧
      ∀ moment' : Moment, moment'.seconds = epoch.seconds + seconds → moment' = moment := by
  obtain ⟨date, hdate, hnumber⟩ := exists_date_civil (seconds / 86400)
  have hsplit := Nat.div_add_mod seconds 86400
  have hday : seconds % 86400 < 86400 := Nat.mod_lt _ (by decide)
  generalize hrest : seconds % 86400 = daySeconds at hsplit hday
  let moment : Moment := ⟨date, daySeconds / 3600, daySeconds % 3600 / 60, daySeconds % 60, by omega, by omega, by omega⟩
  have hmoment : moment.seconds = epoch.seconds + seconds := by
    rw [seconds_epoch, Moment.seconds]
    simp only [moment, hnumber]
    generalize seconds / 86400 = days at hsplit
    omega
  refine ⟨moment, hmoment, ?_, fun moment' h => Moment.eq_of_seconds_eq (h.trans hmoment.symm)⟩
  rw [formatUtcTimestamp, hdate, hrest]
  rfl

end Moments

end OpenaiRs.Provenance
