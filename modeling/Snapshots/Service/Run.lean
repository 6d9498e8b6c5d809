import Snapshots.Firing.Flight
import Snapshots.Service.Tasks

/-! # Firings of a service

A firing starts by stamping its task, works on the clusters, and ends with a record in the
history. If the task is gone by then, its history goes too.
-/

namespace Snapshots

open Firing Time

namespace Service

variable {φ σ : Type} [Fleet φ σ]

/-- The service with the time of a firing noted in its task, and the task; nothing if there is no
such task. -/
def stamp (s : Service φ) (m : Moment) (id : String) (firedAt : Instant) :
    Option (Service φ × Task) :=
  (s.tasks.get? id).map fun t =>
    let t := { t with lastExecuted := some firedAt }
    ((s.put t).persist m, t)

/-- A firing of a task by the service. -/
def launch (s : Service φ) (t : Task) (firedAt : Instant) : Flight σ :=
  .launch s.options.policy s.fleet t firedAt

/-- The service after a task was to be fired at once, and the firing. -/
def run (s : Service φ) (m : Moment) (id : String) : Service φ × Except TaskError (Flight σ) :=
  match s.stamp m id m.now with
  | none => (s, .error (.notFound id))
  | some (s, t) => (s, .ok (s.launch t m.now))

/-- The service after the timer started a job, and the firing. The task is fired as it was when
its entry was made; a task that is gone is not fired. -/
def runJob (s : Service φ) (m : Moment) (job : Job) : Service φ × Option (Flight σ) :=
  match s.stamp m job.task.id m.now with
  | none => (s, none)
  | some (s, _) => (s, some (s.launch job.task m.now))

def conclude (s : Service φ) (r : Record) : Service φ :=
  { s with history := s.history.record r }

/-- The service without the history of a task that is gone. -/
def settle (s : Service φ) (id : String) : Service φ :=
  if s.tasks.contains id then s else s.forget id

end Service

end Snapshots
