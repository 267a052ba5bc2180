import OpenaiRs.Provenance.Snapshot

/-!
# What the checks of the snapshot accept

`verify_pinned_summary` accepts one summary, and `verify_manifest` accepts the manifest that `fetch` makes of it while
the year has four digits.
-/

namespace OpenaiRs.Provenance

open Rust Rust.Chars Calendar

section Comparisons

theorem compare_eq_nil {α : Type} [DecidableEq α] {display : α → Chars} {label : String} {expected actual : α} :
    compare display label expected actual = [] ↔ expected = actual := by
  rw [compare]
  by_cases h : expected = actual
  · rw [if_neg (not_not.mpr h)]
    exact iff_of_true rfl h
  · rw [if_pos h]
    exact iff_of_false (List.cons_ne_nil _ _) h

theorem verificationResult_eq_ok {problems : List String} : verificationResult problems = .ok () ↔ problems = [] := by
  cases problems with
  | nil => exact iff_of_true rfl rfl
  | cons problem rest =>
      apply iff_of_false
      · exact fun h => nomatch h
      · exact List.cons_ne_nil _ _

/-- Exactly the pinned summary passes. -/
theorem verifyPinnedSummary_eq_ok {summary : SnapshotSummary} :
    verifyPinnedSummary summary = .ok () ↔ summary = pinned := by
  rw [verifyPinnedSummary, verificationResult_eq_ok]
  simp only [compareNumber, compareText, List.append_eq_nil_iff, compare_eq_nil]
  constructor
  · rintro ⟨⟨⟨⟨⟨⟨⟨⟨⟨h₁, h₂⟩, h₃⟩, h₄⟩, h₅⟩, h₆⟩, h₇⟩, h₈⟩, h₉⟩, h₁₀⟩
    obtain ⟨⟩ := summary
    rw [SnapshotSummary.mk.injEq]
    exact ⟨h₁.symm, h₂.symm, h₃.symm, h₄.symm, h₅.symm, h₆.symm, h₇.symm, h₈.symm, h₉.symm, h₁₀.symm⟩
  · rintro rfl
    exact ⟨⟨⟨⟨⟨⟨⟨⟨⟨rfl, rfl⟩, rfl⟩, rfl⟩, rfl⟩, rfl⟩, rfl⟩, rfl⟩, rfl⟩, rfl⟩

/-- Exactly the manifest that `fetch` would make passes, if its time is well formed. -/
theorem verifyManifest_eq_ok {manifest : SourceManifest} {summary : SnapshotSummary} :
    verifyManifest manifest summary = .ok () ↔
      manifest = .new manifest.fetchedAt summary ∧ isUtc manifest.fetchedAt = true := by
  have hutc : ∀ (utc : Bool) (problem : String), (if utc = true then [] else [problem]) = [] ↔ utc = true := by
    intro utc problem
    cases utc with
    | true => exact iff_of_true rfl rfl
    | false => exact iff_of_false (List.cons_ne_nil _ _) Bool.false_ne_true
  rw [verifyManifest, verificationResult_eq_ok]
  simp only [compareNumber, compareText, List.append_eq_nil_iff, compare_eq_nil, hutc]
  apply and_congr_left
  intro _
  constructor
  · rintro ⟨⟨⟨⟨⟨⟨⟨⟨⟨⟨⟨⟨⟨⟨⟨⟨⟨h₁, h₂⟩, h₃⟩, h₄⟩, h₅⟩, h₆⟩, h₇⟩, h₈⟩, h₉⟩, h₁₀⟩, h₁₁⟩, h₁₂⟩, h₁₃⟩, h₁₄⟩, h₁₅⟩, h₁₆⟩, h₁₇⟩, h₁₈⟩
    obtain ⟨⟩ := manifest
    rw [SourceManifest.new, SourceManifest.mk.injEq]
    exact ⟨h₁.symm, h₂.symm, h₃.symm, h₄.symm, h₅.symm, h₆.symm, h₇.symm, rfl, h₈.symm, h₉.symm, h₁₀.symm, h₁₁.symm,
      h₁₂.symm, h₁₃.symm, h₁₄.symm, h₁₅.symm, h₁₆.symm, h₁₇.symm, h₁₈.symm⟩
  · intro h
    rw [h]
    exact ⟨⟨⟨⟨⟨⟨⟨⟨⟨⟨⟨⟨⟨⟨⟨⟨⟨rfl, rfl⟩, rfl⟩, rfl⟩, rfl⟩, rfl⟩, rfl⟩, rfl⟩, rfl⟩, rfl⟩, rfl⟩, rfl⟩, rfl⟩, rfl⟩, rfl⟩, rfl⟩, rfl⟩, rfl⟩

end Comparisons

section Times

/-- The characters of a timestamp. -/
def TimeText (text : Chars) : Prop := ∀ c ∈ text, c.isDigit = true ∨ c ∈ ['-', 'T', ':', 'Z']

theorem toList_padded (width n : ℕ) :
    (padded width n).toList = List.replicate (width - (Nat.toDigits 10 n).length) '0' ++ Nat.toDigits 10 n :=
  String.toList_ofList

theorem length_padded (width n : ℕ) : (padded width n).toList.length = max width (Nat.toDigits 10 n).length := by
  rw [toList_padded, List.length_append, List.length_replicate]
  omega

theorem length_padded_eq {width n : ℕ} (hwidth : 0 < width) :
    (padded width n).toList.length = width ↔ n < 10 ^ width := by
  rw [length_padded, ← Nat.length_toDigits_le_iff (by decide) hwidth]
  omega

theorem timeText_padded (width n : ℕ) : TimeText (padded width n).toList := by
  intro c hc
  rw [toList_padded, List.mem_append] at hc
  apply Or.inl
  rcases hc with hc | hc
  · rw [List.eq_of_mem_replicate hc]
    decide
  · exact isDigit_decimal hc

theorem TimeText.append {left right : Chars} (hleft : TimeText left) (hright : TimeText right) :
    TimeText (left ++ right) := fun c hc => (List.mem_append.mp hc).elim (hleft c) (hright c)

theorem timeText_timestamp (year month day hour minute second : ℕ) :
    TimeText (timestamp year month day hour minute second).toList := by
  have hdash : TimeText "-".toList := by unfold TimeText; decide
  have ht : TimeText "T".toList := by unfold TimeText; decide
  have hcolon : TimeText ":".toList := by unfold TimeText; decide
  have hz : TimeText "Z".toList := by unfold TimeText; decide
  simp only [timestamp, String.toList_append]
  exact ((((((((((((timeText_padded 4 year).append hdash).append (timeText_padded 2 month)).append hdash).append
    (timeText_padded 2 day)).append ht).append (timeText_padded 2 hour)).append hcolon).append
    (timeText_padded 2 minute)).append hcolon).append (timeText_padded 2 second)).append hz)

theorem TimeText.ascii {text : Chars} (h : TimeText text) {c : Char} (hc : c ∈ text) :
    0x20 ≤ c.toNat ∧ c.toNat < 0x7F := by
  rcases h c hc with hdigit | hmem
  · simp only [Char.isDigit, Bool.and_eq_true, decide_eq_true_eq, ge_iff_le, UInt32.le_iff_toNat_le] at hdigit
    exact ⟨le_trans (by decide) hdigit.1, lt_of_le_of_lt hdigit.2 (by decide)⟩
  · clear hc
    revert c
    decide

theorem TimeText.byteLength_eq {text : Chars} (h : TimeText text) : byteLength text = text.length := by
  have hsize : ∀ c ∈ text, Char.utf8Size c = 1 := by
    intro c hc
    rw [Char.utf8Size_eq_one_iff, UInt32.le_iff_toNat_le]
    exact Nat.le_of_lt (h.ascii hc).2
  rw [byteLength, List.map_congr_left hsize, List.map_const', List.sum_replicate_nat, Nat.mul_one]

/-- The length is all that the check of a time can find wrong with a timestamp. -/
theorem isUtc_timestamp (year month day hour minute second : ℕ) :
    isUtc (timestamp year month day hour minute second).toList = true ↔
      (timestamp year month day hour minute second).toList.length = 20 := by
  have htext := timeText_timestamp year month day hour minute second
  have hlast : (timestamp year month day hour minute second).toList.getLast? = some 'Z' := by
    rw [timestamp, String.toList_append]
    exact List.getLast?_concat
  have hascii : ((timestamp year month day hour minute second).toList.all fun c => decide (c.toNat < 128)) = true :=
    List.all_eq_true.mpr fun c hc => decide_eq_true (by have := (htext.ascii hc).2; omega)
  rw [isUtc, hlast, hascii, htext.byteLength_eq]
  simp

theorem length_timestamp {year month day hour minute second : ℕ} (hmonth : month < 100) (hday : day < 100)
    (hhour : hour < 100) (hminute : minute < 100) (hsecond : second < 100) :
    (timestamp year month day hour minute second).toList.length = 20 ↔ year < 10000 := by
  have htwo : ∀ {n : ℕ}, n < 100 → (padded 2 n).toList.length = 2 := fun h => (length_padded_eq (by decide)).mpr h
  have hyear : (padded 4 year).toList.length = 4 ↔ year < 10000 := length_padded_eq (by decide)
  have hone : ∀ separator ∈ ["-", "T", ":", "Z"], separator.toList.length = 1 := by decide
  simp only [timestamp, String.toList_append, List.length_append, htwo hmonth, htwo hday, htwo hhour, htwo hminute,
    htwo hsecond, hone _ (by decide : "-" ∈ _), hone _ (by decide : "T" ∈ _), hone _ (by decide : ":" ∈ _),
    hone _ (by decide : "Z" ∈ _)]
  rw [← hyear]
  omega

theorem daysBeforeYear_tenThousand : daysBeforeYear 10000 = 3652425 := by
  have hdays := daysBeforeYear_add_leapDay 10000
  have hleap : leapDay 10000 = 1 := by decide
  rw [hleap] at hdays
  omega

/-- The years of up to four digits. -/
theorem year_lt_iff (moment : Moment) : moment.date.year < 10000 ↔ moment.seconds < 3652425 * 86400 := by
  have hhour := moment.hour_lt
  have hminute := moment.minute_lt
  have hsecond := moment.second_lt
  have hdays : moment.seconds < 3652425 * 86400 ↔ moment.date.dayNumber < 3652425 := by
    rw [Moment.seconds]
    omega
  rw [hdays, ← daysBeforeYear_tenThousand]
  constructor
  · exact fun h => Nat.lt_of_lt_of_le (Date.dayNumber_lt_year _) (daysBeforeYear_le_of_le h)
  · intro h
    by_contra hyear
    have hle := daysBeforeYear_le_of_le (not_lt.mp hyear)
    exact absurd (Date.daysBeforeYear_le moment.date) (by omega)

theorem monthLength_le (year month : ℕ) : monthLength year month ≤ 31 := by
  have hleap := leapDay_le_one year
  unfold monthLength
  split <;> omega

/-- A time passes the check up to the year 9999. -/
theorem isUtc_formatUtcTimestamp (seconds : ℕ) :
    isUtc (formatUtcTimestamp seconds).toList = true ↔ seconds < 253402300800 := by
  obtain ⟨moment, hseconds, htext, -⟩ := formatUtcTimestamp_moment seconds
  have hmonth := moment.date.month_le
  have hday := moment.date.day_le.trans (monthLength_le _ _)
  have hhour := moment.hour_lt
  have hminute := moment.minute_lt
  have hsecond := moment.second_lt
  rw [htext, momentText, isUtc_timestamp, length_timestamp (by omega) (by omega) (by omega) (by omega) (by omega),
    year_lt_iff, hseconds, seconds_epoch]
  omega

end Times

end OpenaiRs.Provenance
