import Snapshots.Cron.Schedule

/-! # Timers

A timer holds entries, each a schedule with a job, under handles that are never used twice.
-/

namespace Snapshots.Timer

/-- What an entry of a timer is known by. -/
structure Handle where
  number : Nat
  deriving DecidableEq, Repr, Inhabited

def Handle.text (h : Handle) : String :=
  "#" ++ toString h.number

/-- Why a timer did not take an entry. -/
inductive RegisterError where
  | rejected (error : Cron.ScheduleError)
  | unavailable (reason : String)
  deriving DecidableEq, Repr

def RegisterError.message : RegisterError → String
  | rejected error => "cron engine rejected schedule: " ++ error.message
  | unavailable reason => "cron engine unavailable: " ++ reason

end Snapshots.Timer
