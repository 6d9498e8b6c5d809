import Snapshots.Service.Basic

/-! # Previews

The fire times of all enabled tasks in a span of hours.
-/

namespace Snapshots

open Time

structure UpcomingRun where
  taskId : String
  taskName : String
  time : Instant
  deriving DecidableEq, Repr

namespace UpcomingRun

def toJson (r : UpcomingRun) : Json :=
  .object [("taskId", .string r.taskId), ("taskName", .string r.taskName),
    ("at", r.time.toJson)]

/-- Whether a run is listed before another: by time, then by task. -/
def listedBefore (a b : UpcomingRun) : Bool :=
  a.time < b.time || (a.time = b.time && a.taskId ≤ b.taskId)

end UpcomingRun

namespace Service

variable {φ : Type}

/-- The fire times of a task after a moment, and not after another. A task whose expression is no
schedule now has none. -/
def runsOf (now start stop : Instant) (t : Task) : List UpcomingRun :=
  match Cron.Schedule.parse now t.cron with
  | .error _ => []
  | .ok schedule => (schedule.pattern.between start stop).map fun u => ⟨t.id, t.name, u⟩

/-- The runs of all enabled tasks in so many hours from a moment on, or nothing if the last of
these hours lies beyond all instants. -/
def preview? (s : Service φ) (now start : Instant) (hours : Nat) : Option (List UpcomingRun) := do
  let stop ← start.addHours? hours
  some (((s.tasks.values.filter (·.enabled)).flatMap (runsOf now start stop)).mergeSort
    UpcomingRun.listedBefore)

end Service

end Snapshots
