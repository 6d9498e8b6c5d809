import Snapshots.Table
import Snapshots.Timer.Basic

/-! # Timers moved by hand

A timer on which nothing fires by itself. Due times follow a clock that is set from outside, and
registrations can be made to fail.
-/

namespace Snapshots.Timer

open Cron Time

/-- A timer that is moved by hand. -/
structure Manual (ι : Type) where
  entries : Table Handle (Schedule × ι)
  lastNumber : Nat
  now : Instant
  rejecting : Bool
  failures : Nat

namespace Manual

variable {ι : Type}

def new (now : Instant) : Manual ι :=
  ⟨.empty, 0, now, false, 0⟩

/-- The timer after it was asked for an entry at a moment of the wall clock, and the handle. A
failure that was asked for comes before any look at the expression. -/
def register (m : Manual ι) (wall : Instant) (expression : String) (job : ι) :
    Manual ι × Except RegisterError Handle :=
  if m.rejecting then (m, .error (.unavailable "registrations are being rejected"))
  else if 0 < m.failures then
    ({ m with failures := m.failures - 1 },
      .error (.unavailable "injected registration failure"))
  else match Schedule.parse wall expression with
    | .error e => (m, .error (.rejected e))
    | .ok schedule =>
      let handle := ⟨m.lastNumber + 1⟩
      ({ m with
        entries := m.entries.insert handle (schedule, job)
        lastNumber := m.lastNumber + 1 }, .ok handle)

def unregister (m : Manual ι) (h : Handle) : Manual ι :=
  { m with entries := m.entries.erase h }

/-- When an entry is due next by the timer's clock. -/
def next? (m : Manual ι) (h : Handle) : Option Instant := do
  let (schedule, _) ← m.entries.get? h
  schedule.pattern.next? m.now

def job? (m : Manual ι) (h : Handle) : Option ι :=
  (m.entries.get? h).map (·.2)

end Manual

end Snapshots.Timer
