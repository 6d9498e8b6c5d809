import Snapshots.Time.Date

/-! # Instants

A moment of universal time: whole seconds from 1970-01-01T00:00:00 and a part below a second.
A part of a full second or more marks the leap second that follows second 59.
-/

namespace Snapshots.Time

def nanosPerSecond : Nat := 1000000000

def secondsPerDay : Nat := 86400

/-- Second of -262143-01-01T00:00:00. -/
def firstSecond : Int := -8334601228800

/-- Second of 262142-12-31T23:59:59. -/
def lastSecond : Int := 8210266876799

/-- A moment of universal time in the years -262143 to 262142. -/
structure Instant where
  seconds : Int
  nanos : Nat
  inRange : firstSecond ≤ seconds ∧ seconds ≤ lastSecond := by decide
  nanos_lt : nanos < 2 * nanosPerSecond := by decide
  leap_at_59 : nanosPerSecond ≤ nanos → seconds % 60 = 59 := by decide
  deriving DecidableEq, Repr

namespace Instant

instance : Inhabited Instant := ⟨0, 0, by decide, by decide, by decide⟩

/-- The instant with these parts, if there is one. -/
def ofParts? (seconds : Int) (nanos : Nat) : Option Instant :=
  if h : (firstSecond ≤ seconds ∧ seconds ≤ lastSecond) ∧ nanos < 2 * nanosPerSecond ∧
      (nanosPerSecond ≤ nanos → seconds % 60 = 59) then
    some ⟨seconds, nanos, h.1, h.2.1, h.2.2⟩
  else none

/-- Earlier seconds come first, then smaller parts of a second. -/
protected def lt (a b : Instant) : Prop :=
  a.seconds < b.seconds ∨ (a.seconds = b.seconds ∧ a.nanos < b.nanos)

instance : LT Instant := ⟨Instant.lt⟩

instance : LE Instant := ⟨fun a b => ¬ b < a⟩

instance (a b : Instant) : Decidable (a < b) :=
  inferInstanceAs (Decidable (_ ∨ _))

instance (a b : Instant) : Decidable (a ≤ b) :=
  inferInstanceAs (Decidable (¬ _))

def dayNumber (t : Instant) : Int :=
  t.seconds / secondsPerDay

def secondOfDay (t : Instant) : Nat :=
  (t.seconds % secondsPerDay).toNat

def date (t : Instant) : Date :=
  .ofDayNumber t.dayNumber

/-- The second that a clock shows, 60 in a leap second. -/
def clockSecond (t : Instant) : Nat :=
  t.secondOfDay % 60 + t.nanos / nanosPerSecond

def clockNanos (t : Instant) : Nat :=
  t.nanos % nanosPerSecond

/-- The instant so many nanoseconds later. A leap second that is left counts as no time. -/
def addNanos? (t : Instant) (n : Nat) : Option Instant :=
  if nanosPerSecond ≤ t.nanos ∧ t.nanos + n < 2 * nanosPerSecond then
    ofParts? t.seconds (t.nanos + n)
  else
    let part := t.nanos % nanosPerSecond + n
    ofParts? (t.seconds + part / nanosPerSecond) (part % nanosPerSecond)

def addMillis? (t : Instant) (n : Nat) : Option Instant :=
  t.addNanos? (n * 1000000)

def addHours? (t : Instant) (n : Nat) : Option Instant :=
  t.addNanos? (n * 3600 * nanosPerSecond)

/-- Nanoseconds from one instant to a later one, zero if it is not later. -/
def nanosUntil (t u : Instant) : Nat :=
  ((u.seconds - t.seconds) * nanosPerSecond + (u.nanos : Int) - (t.nanos : Int)).toNat

theorem ofParts?_eq_some_iff {s : Int} {n : Nat} {t : Instant} :
    ofParts? s n = some t ↔ t.seconds = s ∧ t.nanos = n := by
  unfold ofParts?
  split
  · constructor
    · rintro ⟨⟩
      exact ⟨rfl, rfl⟩
    · rcases t with ⟨s', n', _, _, _⟩
      rintro ⟨rfl, rfl⟩
      rfl
  · rename_i h
    constructor
    · simp
    · rcases t with ⟨s', n', h₁, h₂, h₃⟩
      rintro ⟨rfl, rfl⟩
      exact absurd ⟨h₁, h₂, h₃⟩ h

theorem lt_iff {a b : Instant} :
    a < b ↔ a.seconds < b.seconds ∨ (a.seconds = b.seconds ∧ a.nanos < b.nanos) :=
  Iff.rfl

theorem le_iff {a b : Instant} : a ≤ b ↔ ¬ b < a :=
  Iff.rfl

theorem eq_of_parts {a b : Instant} (hs : a.seconds = b.seconds) (hn : a.nanos = b.nanos) :
    a = b := by
  cases a
  cases b
  simp_all

end Instant

end Snapshots.Time
