/-! # Calendar dates

Dates of the proleptic Gregorian calendar and their day numbers, counted from 1970-01-01.
-/

namespace Snapshots.Time

/-- A year, a month and a day of the month, not checked against each other. -/
structure Date where
  year : Int
  month : Nat
  day : Nat
  deriving DecidableEq, Repr, Inhabited

def isLeapYear (year : Int) : Bool :=
  year % 4 == 0 && (year % 100 != 0 || year % 400 == 0)

def daysInMonth (year : Int) : Nat → Nat
  | 1 => 31 | 2 => if isLeapYear year then 29 else 28 | 3 => 31 | 4 => 30 | 5 => 31 | 6 => 30
  | 7 => 31 | 8 => 31 | 9 => 30 | 10 => 31 | 11 => 30 | 12 => 31 | _ => 0

namespace Date

/-- The month and the day exist in the year. -/
def Valid (d : Date) : Prop :=
  1 ≤ d.day ∧ d.day ≤ daysInMonth d.year d.month

instance (d : Date) : Decidable d.Valid :=
  inferInstanceAs (Decidable (_ ∧ _))

/-- Days from 1970-01-01, counting from March so that the leap day ends a year. -/
def dayNumber (d : Date) : Int :=
  let year := if d.month ≤ 2 then d.year - 1 else d.year
  let month : Nat := if d.month ≤ 2 then d.month + 9 else d.month - 3
  let era := year / 400
  let yearOfEra := (year % 400).toNat
  let dayOfYear := (153 * month + 2) / 5 + (d.day - 1)
  let dayOfEra := yearOfEra * 365 + yearOfEra / 4 - yearOfEra / 100 + dayOfYear
  era * 146097 + dayOfEra - 719468

def ofDayNumber (n : Int) : Date :=
  let shifted := n + 719468
  let era := shifted / 146097
  let dayOfEra := (shifted % 146097).toNat
  let yearOfEra :=
    (dayOfEra - dayOfEra / 1460 + dayOfEra / 36524 - dayOfEra / 146096) / 365
  let dayOfYear := dayOfEra - (365 * yearOfEra + yearOfEra / 4 - yearOfEra / 100)
  let month := (5 * dayOfYear + 2) / 153
  let day := dayOfYear - (153 * month + 2) / 5 + 1
  let year : Int := era * 400 + yearOfEra
  if month < 10 then ⟨year, month + 3, day⟩ else ⟨year + 1, month - 9, day⟩

end Date

/-- Days since the last Sunday, for a day number. -/
def weekday (dayNumber : Int) : Nat :=
  ((dayNumber + 4) % 7).toNat

example : Date.dayNumber ⟨1970, 1, 1⟩ = 0 := by decide

end Snapshots.Time
