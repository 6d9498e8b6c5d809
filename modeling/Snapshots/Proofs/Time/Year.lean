import Snapshots.Proofs.Time.Calendar

/-! # Days of a year

The day number of a date is counted from the first day of its year and the first day of its month,
so a date that exists is the date of its day number. Every date recurs on its day of the week in
the years 1970 to 2100.
-/

namespace Snapshots.Time.Date

/-- Day number of the first day of a year. -/
def yearStart (year : Int) : Int :=
  365 * (year - 1) + (year - 1) / 4 - (year - 1) / 100 + (year - 1) / 400 - 719162

def leapDays (year : Int) : Nat :=
  if isLeapYear year then 1 else 0

/-- Days of a year before a month of it, the month after the last one included. -/
def monthStart (year : Int) (month : Nat) : Nat :=
  if month ≤ 2 then 31 * (month - 1) else 59 + leapDays year + (153 * (month - 3) + 2) / 5

theorem yearStart_succ (year : Int) :
    yearStart (year + 1) = yearStart year + 365 + leapDays year := by
  simp only [yearStart, leapDays, isLeapYear, Bool.and_eq_true, Bool.or_eq_true, beq_iff_eq,
    bne_iff_ne]
  split <;> omega

theorem yearStart_mono {a b : Int} (h : a ≤ b) : yearStart a ≤ yearStart b := by
  unfold yearStart
  omega

theorem daysInMonth_february (year : Int) : daysInMonth year 2 = 28 + leapDays year := by
  simp only [daysInMonth, leapDays]
  split <;> rfl

theorem monthStart_succ {year : Int} {month : Nat} (h : 1 ≤ month ∧ month ≤ 12) :
    monthStart year (month + 1) = monthStart year month + daysInMonth year month := by
  obtain ⟨hlow, hhigh⟩ := h
  interval_cases month
  case «2» =>
    rw [daysInMonth_february]
    simp only [monthStart]
    norm_num
    omega
  all_goals
    simp [monthStart, daysInMonth]

theorem monthStart_mono {year : Int} {a b : Nat} (h : a ≤ b) :
    monthStart year a ≤ monthStart year b := by
  unfold monthStart
  split <;> split <;> omega

theorem dayNumber_eq {d : Date} (h : d.Valid) :
    d.dayNumber = yearStart d.year + monthStart d.year d.month + (d.day - 1 : Nat) := by
  obtain ⟨⟨hlow, hhigh⟩, -⟩ := h.range
  have hyear := yearStart_succ d.year
  simp only [dayNumber, yearStart, monthStart] at *
  split <;> omega

theorem Valid.monthDay_lt {d : Date} (h : d.Valid) :
    monthStart d.year d.month + (d.day - 1) < monthStart d.year (d.month + 1) := by
  rw [monthStart_succ h.range.1]
  obtain ⟨hday, hdays⟩ := h
  omega

theorem Valid.dayNumber_mem {d : Date} (h : d.Valid) :
    yearStart d.year ≤ d.dayNumber ∧ d.dayNumber < yearStart (d.year + 1) := by
  have hlast : monthStart d.year (d.month + 1) ≤ 365 + leapDays d.year := by
    have hmono := @monthStart_mono d.year (d.month + 1) 13 (by have := h.range; omega)
    have hend : monthStart d.year 13 = 59 + leapDays d.year + 306 := rfl
    omega
  have hday := h.monthDay_lt
  rw [dayNumber_eq h, yearStart_succ]
  omega

theorem year_le_iff (n year : Int) : year ≤ (ofDayNumber n).year ↔ yearStart year ≤ n := by
  obtain ⟨hlow, hhigh⟩ := (valid_ofDayNumber n).dayNumber_mem
  rw [dayNumber_ofDayNumber] at hlow hhigh
  constructor
  · intro h
    exact (yearStart_mono h).trans hlow
  · intro h
    by_contra hlt
    have := yearStart_mono (show (ofDayNumber n).year + 1 ≤ year by omega)
    omega

theorem eq_of_dayNumber_eq {d d' : Date} (h : d.Valid) (h' : d'.Valid)
    (he : d.dayNumber = d'.dayNumber) : d = d' := by
  have hyear : d.year = d'.year := by
    obtain ⟨hl, hh⟩ := h.dayNumber_mem
    obtain ⟨hl', hh'⟩ := h'.dayNumber_mem
    rcases Int.lt_trichotomy d.year d'.year with hlt | heq | hlt
    · have := yearStart_mono (show d.year + 1 ≤ d'.year by omega)
      omega
    · exact heq
    · have := yearStart_mono (show d'.year + 1 ≤ d.year by omega)
      omega
  have hdays : monthStart d.year d.month + (d.day - 1) =
      monthStart d.year d'.month + (d'.day - 1) := by
    rw [dayNumber_eq h, dayNumber_eq h', ← hyear] at he
    omega
  have hmonth : d.month = d'.month := by
    have hl := h.monthDay_lt
    have hl' := h'.monthDay_lt
    rw [← hyear] at hl'
    rcases Nat.lt_trichotomy d.month d'.month with hlt | heq | hlt
    · have := @monthStart_mono d.year (d.month + 1) d'.month hlt
      omega
    · exact heq
    · have := @monthStart_mono d.year (d'.month + 1) d.month hlt
      omega
  have hday : d.day = d'.day := by
    rw [hmonth] at hdays
    have := h.1
    have := h'.1
    omega
  cases d
  cases d'
  simp_all

theorem ofDayNumber_dayNumber {d : Date} (h : d.Valid) : ofDayNumber d.dayNumber = d :=
  eq_of_dayNumber_eq (valid_ofDayNumber _) h (dayNumber_ofDayNumber _)

theorem exists_year_alike (year : Int) : ∃ y : Int, (1970 ≤ y ∧ y ≤ 2100) ∧
    isLeapYear y = isLeapYear year ∧ (yearStart y - yearStart year) % 7 = 0 := by
  have hall : ∀ r < 7, ∀ leap : Bool, ∃ k < 28,
      isLeapYear (1970 + (k : Nat)) = leap ∧ yearStart (1970 + (k : Nat)) % 7 = (r : Nat) := by
    decide
  obtain ⟨k, hk, hleap, hr⟩ := hall (yearStart year % 7).toNat (by omega) (isLeapYear year)
  exact ⟨1970 + k, ⟨by omega, by omega⟩, hleap, by omega⟩

theorem daysInMonth_congr {a b : Int} (h : isLeapYear a = isLeapYear b) (month : Nat) :
    daysInMonth b month = daysInMonth a month := by
  unfold daysInMonth
  rw [h]

/-- Every date recurs on the same day of the week in the years 1970 to 2100. -/
theorem exists_day_alike (n : Int) : ∃ m : Int,
    (1970 ≤ (ofDayNumber m).year ∧ (ofDayNumber m).year ≤ 2100) ∧ weekday m = weekday n ∧
      (ofDayNumber m).month = (ofDayNumber n).month ∧
      (ofDayNumber m).day = (ofDayNumber n).day := by
  have hv := valid_ofDayNumber n
  obtain ⟨y, hy, hleap, hweek⟩ := exists_year_alike (ofDayNumber n).year
  generalize hd : ofDayNumber n = d at *
  have hn : d.dayNumber = n := hd ▸ dayNumber_ofDayNumber n
  have hv' : (⟨y, d.month, d.day⟩ : Date).Valid := ⟨hv.1, daysInMonth_congr hleap d.month ▸ hv.2⟩
  have hdays : leapDays y = leapDays d.year := by
    simp only [leapDays, hleap]
  refine ⟨(⟨y, d.month, d.day⟩ : Date).dayNumber, ?_⟩
  rw [ofDayNumber_dayNumber hv']
  refine ⟨hy, ?_, rfl, rfl⟩
  have hstart : monthStart y d.month = monthStart d.year d.month := by
    simp only [monthStart, hdays]
  rw [← hn, dayNumber_eq hv, dayNumber_eq hv', weekday, weekday]
  dsimp only
  rw [hstart]
  omega

end Snapshots.Time.Date
