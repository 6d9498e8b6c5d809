import Snapshots.Proofs.Time.Year
import Snapshots.Time.Instant

/-! # Spans of time

The calendar ends with the year 262142, and hours after an instant lead to another instant unless
they end beyond it. In the years 1970 to 9999 there is a number of hours up to which they never do,
and one from which they always do. Outside leap seconds, a clock has come to an instant when the
nanoseconds until then are over.
-/

namespace Snapshots.Time.Instant

variable {t u : Instant} {a b n : Nat} {year : Int}

/-- Hours move the seconds and leave a part of a second; a leap second becomes a common one. -/
theorem addHours?_eq_some_iff : t.addHours? n = some u ↔
    u.seconds = t.seconds + 3600 * n ∧
      u.nanos = if n = 0 then t.nanos else t.nanos % nanosPerSecond := by
  have hlt := t.nanos_lt
  unfold addHours? addNanos?
  unfold nanosPerSecond at *
  split
  · rename_i h
    obtain rfl : n = 0 := by omega
    simp [ofParts?_eq_some_iff]
  · rename_i h
    rw [ofParts?_eq_some_iff]
    by_cases hn : n = 0
    · subst hn
      simp only [if_true]
      omega
    · rw [if_neg hn]
      omega

theorem le_of_addHours? (h : t.addHours? n = some u) : t ≤ u := by
  obtain ⟨hseconds, hnanos⟩ := addHours?_eq_some_iff.1 h
  rw [le_iff, lt_iff]
  by_cases hn : n = 0
  · rw [if_pos hn] at hnanos
    omega
  · omega

theorem exists_addHours?_iff : (∃ u, t.addHours? n = some u) ↔
    t.seconds + 3600 * n ≤ lastSecond := by
  have ht := t.inRange
  constructor
  · rintro ⟨u, hu⟩
    rw [← (addHours?_eq_some_iff.1 hu).1]
    exact u.inRange.2
  · intro h
    by_cases hn : n = 0
    · exact ⟨t, addHours?_eq_some_iff.2 ⟨by omega, by rw [if_pos hn]⟩⟩
    · have hlt : t.nanos % nanosPerSecond < nanosPerSecond := Nat.mod_lt _ (by decide)
      refine ⟨⟨t.seconds + 3600 * n, t.nanos % nanosPerSecond, by omega, by omega, by omega⟩, ?_⟩
      exact addHours?_eq_some_iff.2 ⟨rfl, by rw [if_neg hn]⟩

theorem exists_addHours? (h : t.addHours? (a + b) = some u) : ∃ v, t.addHours? a = some v := by
  have hend := exists_addHours?_iff.1 ⟨u, h⟩
  rw [exists_addHours?_iff]
  omega

theorem addHours?_add {v : Instant} (h : t.addHours? (a + b) = some u)
    (ha : t.addHours? a = some v) : v.addHours? b = some u := by
  obtain ⟨hseconds, hnanos⟩ := addHours?_eq_some_iff.1 h
  obtain ⟨hseconds', hnanos'⟩ := addHours?_eq_some_iff.1 ha
  rw [addHours?_eq_some_iff]
  constructor
  · omega
  · rw [hnanos, hnanos']
    by_cases hb : b = 0
    · simp [hb]
    · by_cases ha : a = 0
      · simp [ha]
      · simp [ha, hb]

/-! ### Nanoseconds -/

section

variable (ht : t.nanos < nanosPerSecond)
include ht

theorem addNanos?_eq_some_iff : t.addNanos? n = some u ↔
    u.seconds = t.seconds + (t.nanos + n) / nanosPerSecond ∧
      u.nanos = (t.nanos + n) % nanosPerSecond := by
  rw [addNanos?, if_neg (by omega), Nat.mod_eq_of_lt ht, ofParts?_eq_some_iff, Int.natCast_add]

theorem nanosUntil_of_addHours? (h : t.addHours? n = some u) :
    t.nanosUntil u = n * 3600 * nanosPerSecond := by
  obtain ⟨hseconds, hnanos⟩ := addHours?_eq_some_iff.1 h
  rw [Nat.mod_eq_of_lt ht, ite_self] at hnanos
  unfold nanosUntil nanosPerSecond
  omega

theorem nanosUntil_le_iff {v : Instant} (hu : u.nanos < nanosPerSecond)
    (hv : t.addNanos? n = some v) : t.nanosUntil u ≤ n ↔ u ≤ v := by
  obtain ⟨hseconds, hnanos⟩ := (addNanos?_eq_some_iff ht).1 hv
  rw [le_iff, lt_iff, hseconds, hnanos]
  unfold nanosUntil
  unfold nanosPerSecond at *
  omega

end

/-! ### Where hours end -/

/-- The year in which so many hours from an instant on end, also if there is no such instant. -/
def yearAfter (t : Instant) (hours : Nat) : Int :=
  (Date.ofDayNumber ((t.seconds + 3600 * hours) / secondsPerDay)).year

theorem yearAfter_zero (t : Instant) : t.yearAfter 0 = t.date.year := by
  rw [yearAfter, date, dayNumber, Int.natCast_zero, Int.mul_zero, Int.add_zero]

theorem yearAfter_lt_iff :
    t.yearAfter n < year ↔ t.seconds + 3600 * n < Date.yearStart year * secondsPerDay := by
  rw [yearAfter, ← Int.not_le, Date.year_le_iff, Int.not_le,
    Int.ediv_lt_iff_lt_mul (show (0 : Int) < secondsPerDay by decide)]

theorem date_year_lt_iff :
    t.date.year < year ↔ t.seconds < Date.yearStart year * secondsPerDay := by
  rw [← yearAfter_zero, yearAfter_lt_iff, Int.natCast_zero, Int.mul_zero, Int.add_zero]

theorem yearAfter_le_iff : t.yearAfter n ≤ 262142 ↔ t.seconds + 3600 * n ≤ lastSecond := by
  have hend : Date.yearStart 262143 * secondsPerDay = lastSecond + 1 := by decide
  have hlt := @yearAfter_lt_iff t n 262143
  omega

theorem exists_addHours?_iff_yearAfter :
    (∃ u, t.addHours? n = some u) ↔ t.yearAfter n ≤ 262142 :=
  exists_addHours?_iff.trans yearAfter_le_iff.symm

theorem date_year_mem_iff : 1970 ≤ t.date.year ∧ t.date.year ≤ 9999 ↔
    0 ≤ t.seconds ∧ t.seconds ≤ 253402300799 := by
  have hfirst : Date.yearStart 1970 * secondsPerDay = 0 := by decide
  have hlast : Date.yearStart 10000 * secondsPerDay = 253402300800 := by decide
  have hlow := @date_year_lt_iff t 1970
  have hhigh := @date_year_lt_iff t 10000
  omega

/-- So many hours end in the calendar from each instant of these years, and no more. -/
theorem forall_yearAfter_le_iff :
    (∀ t : Instant, 1970 ≤ t.date.year → t.date.year ≤ 9999 → t.yearAfter n ≤ 262142) ↔
      n ≤ 2210240160 := by
  constructor
  · intro h
    let last : Instant := ⟨253402300799, 0, by decide, by decide, by decide⟩
    obtain ⟨hlow, hhigh⟩ := date_year_mem_iff.2 (show 0 ≤ last.seconds ∧ _ by decide)
    have hend := yearAfter_le_iff.1 (h last hlow hhigh)
    simp only [last, lastSecond] at hend
    omega
  · intro hn t hlow hhigh
    obtain ⟨-, hlast⟩ := date_year_mem_iff.1 ⟨hlow, hhigh⟩
    rw [yearAfter_le_iff, lastSecond]
    omega

theorem exists_yearAfter_le_iff :
    (∃ t : Instant, 1970 ≤ t.date.year ∧ t.date.year ≤ 9999 ∧ t.yearAfter n ≤ 262142) ↔
      n ≤ 2280629687 := by
  constructor
  · rintro ⟨t, hlow, hhigh, hend⟩
    obtain ⟨hfirst, -⟩ := date_year_mem_iff.1 ⟨hlow, hhigh⟩
    rw [yearAfter_le_iff, lastSecond] at hend
    omega
  · intro hn
    let first : Instant := ⟨0, 0, by decide, by decide, by decide⟩
    obtain ⟨hlow, hhigh⟩ := date_year_mem_iff.2 (show 0 ≤ first.seconds ∧ _ by decide)
    refine ⟨first, hlow, hhigh, yearAfter_le_iff.2 ?_⟩
    simp only [first, lastSecond]
    omega

end Snapshots.Time.Instant
