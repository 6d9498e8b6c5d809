import Snapshots.Service.Basic

/-! # Operations on tasks

Tasks are created, updated, toggled and deleted. An operation that is refused leaves the tasks
and the file as they were.
-/

namespace Snapshots

namespace Service

variable {φ σ : Type} [Fleet φ σ]

def validate (s : Service φ) (m : Moment) (d : Definition) : Except ValidationError Unit :=
  match d.missingField? with
  | some name => .error (.missingField name)
  | none =>
    match Cron.Schedule.parse m.now d.cron with
    | .error e => .error (.schedule e)
    | .ok _ =>
      if s.options.policy = .reject ∧ d.targets ≠ [] ∧ Fleet.routes s.fleet = false then
        .error (.unsupportedTargets d.targets)
      else .ok ()

/-- The service with a task put and written to the file, and the task as it is shown. -/
def commit (s : Service φ) (m : Moment) (t : Task) : Service φ × Except TaskError Task :=
  let s := (s.put t).persist m
  (s, .ok (s.view t))

/-- The service after a task was to be created. -/
def create (s : Service φ) (m : Moment) (d : Definition) (createdBy : String) :
    Service φ × Except TaskError Task :=
  match s.validate m d with
  | .error e => (s, .error (.validation e))
  | .ok () =>
    let t := Task.ofDefinition d createdBy m.now
    if s.tasks.contains t.id then (s, .error (.alreadyExists t.id))
    else match s.register m t with
      | (s, .error e) => (s, .error (.scheduling e))
      | (s, .ok _) => s.commit m t

/-- The service with the entry that a task had before. -/
def reinstate (s : Service φ) (m : Moment) (t : Task) : Service φ :=
  if t.enabled then (s.register m t).1 else s

/-- The service after a task was to be given another definition. If the timer refuses it, the
task gets back the entry that it had. -/
def update (s : Service φ) (m : Moment) (id : String) (d : Definition) :
    Service φ × Except TaskError Task :=
  match s.validate m d with
  | .error e => (s, .error (.validation e))
  | .ok () =>
    match s.tasks.get? id with
    | none => (s, .error (.notFound id))
    | some previous =>
      let t := previous.apply d m.now
      if t.enabled then
        match s.register m t with
        | (s, .error e) => (s.reinstate m previous, .error (.scheduling e))
        | (s, .ok _) => s.commit m t
      else (s.unregister id).commit m t

/-- The service after a task was to be enabled or disabled, whichever it was not. -/
def toggle (s : Service φ) (m : Moment) (id : String) : Service φ × Except TaskError Task :=
  match s.tasks.get? id with
  | none => (s, .error (.notFound id))
  | some previous =>
    let t := { previous with enabled := !previous.enabled, updatedAt := m.now }
    if t.enabled then
      match s.register m t with
      | (s, .error e) => (s, .error (.scheduling e))
      | (s, .ok _) => s.commit m t
    else (s.unregister id).commit m t

/-- The service without a task, its entry gone and the file written. -/
def discard (s : Service φ) (m : Moment) (id : String) : Service φ :=
  ({ s with tasks := s.tasks.erase id }.unregister id).persist m

def forget (s : Service φ) (id : String) : Service φ :=
  { s with history := s.history.forget id }

/-- The service after a task was to be deleted. -/
def delete (s : Service φ) (m : Moment) (id : String) : Service φ × Except TaskError Unit :=
  if s.tasks.contains id then ((s.discard m id).forget id, .ok ())
  else (s, .error (.notFound id))

end Service

end Snapshots
