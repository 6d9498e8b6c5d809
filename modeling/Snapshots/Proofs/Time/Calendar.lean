import Mathlib.Tactic.IntervalCases
import Snapshots.Time.Date

/-! # Dates and day numbers

The date of a day number exists in the calendar and has that day number. Within an era of 400 years,
a day lies in a century, in four years of the century, and in one of these.
-/

namespace Snapshots.Time.Date

/-- Days in an era. -/
def eraDays : Nat := 146097

def yearOfEra (n : Nat) : Nat :=
  (n - n / 1460 + n / 36524 - n / 146096) / 365

def daysBefore (year : Nat) : Nat :=
  365 * year + year / 4 - year / 100

theorem yearOfEra_eq {c q t : Nat} (hc : c ≤ 3) (hq : 1461 * q + t < 36524) (ht : t ≤ 1460) :
    yearOfEra (36524 * c + 1461 * q + t) = 100 * c + 4 * q + min (t / 365) 3 := by
  have h₁ : (36524 * c + 1461 * q + t) / 36524 = c := by omega
  have h₂ : (36524 * c + 1461 * q + t) / 146096 = 0 := by omega
  have h₃ : (36524 * c + 1461 * q + t) / 1460 =
      25 * c + q + (24 * c + q + t) / 1460 := by omega
  rw [yearOfEra, h₁, h₂, h₃]
  omega

theorem daysBefore_eq {c q k : Nat} (hq : q ≤ 24) (hk : k ≤ 3) :
    daysBefore (100 * c + 4 * q + k) = 36524 * c + 1461 * q + 365 * k := by
  unfold daysBefore
  omega

theorem yearOfEra_spec {n : Nat} (hn : n < eraDays) :
    yearOfEra n < 400 ∧ daysBefore (yearOfEra n) ≤ n ∧ n - daysBefore (yearOfEra n) ≤ 365 ∧
      (n - daysBefore (yearOfEra n) = 365 → (yearOfEra n + 1) % 4 = 0 ∧
        ((yearOfEra n + 1) % 100 ≠ 0 ∨ (yearOfEra n + 1) % 400 = 0)) := by
  have hn : n < 146097 := hn
  by_cases hlast : n = 146096
  · -- The last day of an era closes its fourth century, which is a day longer than the others.
    subst hlast
    decide
  · obtain ⟨c, q, t, hc, hq, ht, rfl⟩ : ∃ c q t, c ≤ 3 ∧ 1461 * q + t < 36524 ∧ t ≤ 1460 ∧
        n = 36524 * c + 1461 * q + t :=
      ⟨n / 36524, n % 36524 / 1461, n % 36524 % 1461, by omega, by omega, by omega, by omega⟩
    rw [yearOfEra_eq hc hq ht, daysBefore_eq (by omega) (by omega)]
    omega

/-- The date of a day, counted from March of a year of an era. -/
def ofMarch (era : Int) (year day : Nat) : Date :=
  let month := (5 * day + 2) / 153
  let dayOfMonth := day - (153 * month + 2) / 5 + 1
  if month < 10 then ⟨era * 400 + year, month + 3, dayOfMonth⟩
  else ⟨era * 400 + year + 1, month - 9, dayOfMonth⟩

theorem dayNumber_ofMarch {era : Int} {year day : Nat} (hy : year < 400) (hd : day ≤ 365) :
    (ofMarch era year day).dayNumber = era * eraDays + daysBefore year + day - 719468 := by
  have hera : (era * 400 + year) / 400 = era := by omega
  have hyear : ((era * 400 + year) % 400).toNat = year := by omega
  have hday : (153 * ((5 * day + 2) / 153) + 2) / 5 +
      (day - (153 * ((5 * day + 2) / 153) + 2) / 5) = day := by omega
  have hshift : year * 365 + year / 4 - year / 100 = daysBefore year := by
    unfold daysBefore
    omega
  simp only [ofMarch]
  split
  · have hm : ¬ (5 * day + 2) / 153 + 3 ≤ 2 := by omega
    simp only [dayNumber, if_neg hm, Nat.add_sub_cancel, hera, hyear, hday, hshift, eraDays]
    omega
  · have hm : (5 * day + 2) / 153 - 9 ≤ 2 := by omega
    have hm' : (5 * day + 2) / 153 - 9 + 9 = (5 * day + 2) / 153 := by omega
    simp only [dayNumber, if_pos hm, Nat.add_sub_cancel, Int.add_sub_cancel, hera, hyear, hm', hday,
      hshift, eraDays]
    omega

theorem valid_ofMarch {era : Int} {year day : Nat} (hd : day ≤ 365)
    (hleap : day = 365 →
      (year + 1) % 4 = 0 ∧ ((year + 1) % 100 ≠ 0 ∨ (year + 1) % 400 = 0)) :
    (ofMarch era year day).Valid := by
  have hm : (5 * day + 2) / 153 ≤ 11 := by omega
  simp only [ofMarch, Valid]
  split
  · generalize hmonth : (5 * day + 2) / 153 = month at *
    interval_cases month <;> simp only [daysInMonth] <;> omega
  · have hmonth : (5 * day + 2) / 153 = 10 ∨ (5 * day + 2) / 153 = 11 := by omega
    rcases hmonth with hmonth | hmonth
    · simp only [hmonth, daysInMonth]
      omega
    · -- Only in February does the number of days depend on the year.
      have hfebruary : isLeapYear (era * 400 + year + 1) = false → day ≠ 365 := by
        intro hno h365
        obtain ⟨h4, h100⟩ := hleap h365
        simp only [isLeapYear, Bool.and_eq_false_iff, Bool.or_eq_false_iff, beq_eq_false_iff_ne,
          bne_eq_false_iff_eq] at hno
        omega
      simp only [hmonth, daysInMonth]
      cases hl : isLeapYear (era * 400 + year + 1) with
      | true =>
        simp only [if_true]
        omega
      | false =>
        have := hfebruary hl
        simp only [Bool.false_eq_true, if_false]
        omega

theorem ofDayNumber_eq (n : Int) :
    ofDayNumber n =
      ofMarch ((n + 719468) / 146097) (yearOfEra ((n + 719468) % 146097).toNat)
        (((n + 719468) % 146097).toNat -
          daysBefore (yearOfEra ((n + 719468) % 146097).toNat)) :=
  rfl

theorem dayOfEra_lt (n : Int) : ((n + 719468) % 146097).toNat < eraDays := by
  unfold eraDays
  omega

theorem dayNumber_ofDayNumber (n : Int) : (ofDayNumber n).dayNumber = n := by
  obtain ⟨hy, hle, hd, -⟩ := yearOfEra_spec (dayOfEra_lt n)
  rw [ofDayNumber_eq, dayNumber_ofMarch hy hd, eraDays]
  omega

theorem valid_ofDayNumber (n : Int) : (ofDayNumber n).Valid := by
  obtain ⟨-, -, hd, hleap⟩ := yearOfEra_spec (dayOfEra_lt n)
  rw [ofDayNumber_eq]
  exact valid_ofMarch hd hleap

theorem year_ofDayNumber (n : Int) :
    (n + 719468) / 146097 * 400 ≤ (ofDayNumber n).year ∧
      (ofDayNumber n).year ≤ (n + 719468) / 146097 * 400 + 400 := by
  obtain ⟨hy, -⟩ := yearOfEra_spec (dayOfEra_lt n)
  rw [ofDayNumber_eq]
  generalize yearOfEra ((n + 719468) % 146097).toNat = year at *
  simp only [ofMarch, apply_ite Date.year]
  split <;> omega

theorem daysInMonth_le (year : Int) (month : Nat) : daysInMonth year month ≤ 31 := by
  fun_cases daysInMonth <;> omega

theorem month_range {year : Int} {month : Nat} (h : 0 < daysInMonth year month) :
    1 ≤ month ∧ month ≤ 12 := by
  revert h
  fun_cases daysInMonth <;> intro h <;> omega

theorem Valid.range {d : Date} (h : d.Valid) :
    (1 ≤ d.month ∧ d.month ≤ 12) ∧ 1 ≤ d.day ∧ d.day ≤ 31 := by
  obtain ⟨hlow, hhigh⟩ := h
  exact ⟨month_range (Nat.lt_of_lt_of_le hlow hhigh), hlow, hhigh.trans (daysInMonth_le ..)⟩

end Snapshots.Time.Date
