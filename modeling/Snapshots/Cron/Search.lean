import Snapshots.Cron.Grammar
import Snapshots.Time.Instant

/-! # Fire times of a pattern

A pattern fires at the whole seconds whose date and time it allows. The search goes through
the days from the day of the start to the end of the year 2100.
-/

namespace Snapshots.Cron

open Time

namespace Pattern

/-- Whether the date of a day is allowed. -/
def allowsDay (p : Pattern) (dayNumber : Int) : Bool :=
  let d := Date.ofDayNumber dayNumber
  p.months.contains d.month && p.daysOfMonth.contains d.day &&
    p.daysOfWeek.contains (weekday dayNumber + 1) && (0 ≤ d.year && p.years.contains d.year.toNat)

/-- Whether the time of a day is allowed, given as seconds since the day began. -/
def allowsSecond (p : Pattern) (n : Nat) : Bool :=
  p.hours.contains (n / 3600) && p.minutes.contains (n / 60 % 60) && p.seconds.contains (n % 60)

def Matches (p : Pattern) (t : Instant) : Prop :=
  t.nanos = 0 ∧ p.allowsDay t.dayNumber = true ∧ p.allowsSecond t.secondOfDay = true

instance (p : Pattern) (t : Instant) : Decidable (p.Matches t) :=
  inferInstanceAs (Decidable (_ ∧ _ ∧ _))

/-- The first allowed time of a day that is not before a time of the day. -/
def secondFrom? (p : Pattern) (low : Nat) : Option Nat :=
  p.hours.findSome? fun h =>
    if h * 3600 + 3599 < low then none
    else p.minutes.findSome? fun m =>
      if h * 3600 + m * 60 + 59 < low then none
      else p.seconds.findSome? fun s =>
        if low ≤ h * 3600 + m * 60 + s then some (h * 3600 + m * 60 + s) else none

/-- The first allowed day among so many days from a day on. -/
def dayFrom? (p : Pattern) : Nat → Int → Option Int
  | 0, _ => none
  | count + 1, n => if p.allowsDay n then some n else p.dayFrom? count (n + 1)

/-- Day number of 2100-12-31. -/
def lastDay : Int := 47846

/-- The first allowed second at or after the given one. -/
def secondSince? (p : Pattern) (start : Int) : Option Int :=
  let startDay := start / secondsPerDay
  let sameDay := do
    if ¬ p.allowsDay startDay then none
    let n ← p.secondFrom? (start % secondsPerDay).toNat
    some (startDay * secondsPerDay + n)
  sameDay <|> do
    let day := max 0 (startDay + 1)
    let day ← p.dayFrom? (lastDay + 1 - day).toNat day
    let n ← p.secondFrom? 0
    some (day * secondsPerDay + n)

/-- The first instant after the given one at which the pattern fires. A start before the year
zero has none. -/
def next? (p : Pattern) (t : Instant) : Option Instant := do
  let start := t.seconds + 1
  if (Date.ofDayNumber (start / secondsPerDay)).year < 0 then none
  let second ← p.secondSince? start
  Instant.ofParts? second 0

/-- The first so many instants after the given one at which the pattern fires. -/
def nextUpTo (p : Pattern) : Nat → Instant → List Instant
  | 0, _ => []
  | count + 1, t =>
    match p.next? t with
    | some u => u :: p.nextUpTo count u
    | none => []

/-- The instants after the first given one, and not after the second, at which the pattern
fires. -/
def between (p : Pattern) (start stop : Instant) : List Instant :=
  go (stop.seconds - start.seconds).toNat start
where
  /-- At most so many instants remain, as each is a second or more after the last. -/
  go : Nat → Instant → List Instant
    | 0, _ => []
    | count + 1, t =>
      match p.next? t with
      | some u => if u ≤ stop then u :: go count u else []
      | none => []

end Pattern

end Snapshots.Cron
