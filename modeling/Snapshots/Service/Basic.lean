import Snapshots.Firing.History
import Snapshots.Firing.Policy
import Snapshots.Service.Error
import Snapshots.Store
import Snapshots.Timer.Engine

/-! # The service

A service keeps tasks, has one timer entry for each task that is enabled, and writes its tasks
to a file after every change. Services that follow each other share the timer, the files and
the clusters.
-/

namespace Snapshots

open Time

/-- What a timer entry stands for: a task as it was when the entry was made, and the service
that made it. -/
structure Job where
  owner : Nat
  task : Task
  deriving DecidableEq, Repr

structure Options where
  policy : Firing.Policy
  historyLimit : Nat
  path : Path
  process : Nat
  deriving Repr, Inhabited

/-- What a service has for itself. -/
structure Desk where
  owner : Nat
  options : Options
  tasks : Table String Task
  /-- The timer entries of the tasks. -/
  handles : Timer.Registry
  history : Firing.History
  deriving Inhabited

/-- What services share. -/
structure Site (φ : Type) where
  engine : Timer.Engine Job
  files : Files
  fleet : φ

/-- A service at its site. -/
structure Service (φ : Type) extends Desk, Site φ

/-- When something is done, by the wall clock and by a clock that only runs forward; and which steps
on files fail then for reasons that the files do not show. -/
structure Moment where
  now : Instant
  monotonic : Nat := 0
  fails : Store.Step → Bool := fun _ => false

namespace Service

variable {φ : Type}

/-- The service after its tasks were written to the file, if that succeeds. -/
def persist (s : Service φ) (m : Moment) : Service φ :=
  { s with
    files := (Store.saveWith m.fails s.options.process s.files s.options.path s.tasks.values).1 }

def jobOf (s : Service φ) (t : Task) : Job :=
  ⟨s.owner, t⟩

/-- The service after the timer was asked for an entry for a task. -/
def register (s : Service φ) (m : Moment) (t : Task) :
    Service φ × Except Timer.RegisterError Timer.Handle :=
  let (handles, engine, r) := s.handles.register s.engine m.now t.id t.cron (s.jobOf t)
  ({ s with handles, engine }, r)

def unregister (s : Service φ) (id : String) : Service φ :=
  let (handles, engine) := s.handles.unregister s.engine id
  { s with handles, engine }

/-- The service with a task in the place of any other of its identity. -/
def put (s : Service φ) (t : Task) : Service φ :=
  { s with tasks := s.tasks.insert t.id t }

/-- A task as it is shown: with the time at which it is due. -/
def view (s : Service φ) (t : Task) : Task :=
  { t with nextExecution := s.handles.next? s.engine t.id }

/-- All tasks as they are shown, oldest first. -/
def list (s : Service φ) : List Task :=
  Task.sorted (s.tasks.values.map s.view)

def find (s : Service φ) (id : String) : Except TaskError Task :=
  match s.tasks.get? id with
  | some t => .ok t
  | none => .error (.notFound id)

def get (s : Service φ) (id : String) : Except TaskError Task :=
  (s.find id).map s.view

def firings (s : Service φ) (id : String) : Except TaskError (List Firing.Record) :=
  (s.find id).map fun _ => s.history.forTask id

/-- The service with one task more from its file. The first of an identity is kept. A task that
the timer refuses is kept without an entry. -/
def restore (m : Moment) (s : Service φ) (t : Task) : Service φ :=
  if s.tasks.contains t.id then s
  else (if t.enabled then (s.register m t).1 else s).put t

/-- A service with the tasks of its file. -/
def start (site : Site φ) (owner : Nat) (options : Options) (m : Moment) : Service φ :=
  (Store.load site.files options.path).foldl (restore m)
    { site with
      owner, options
      tasks := .empty
      handles := .empty
      history := .new options.historyLimit }

end Service

structure TaskStatus where
  id : String
  enabled : Bool
  lastExecuted : Option Instant
  nextExecution : Option Instant
  errorMessage : Option String
  deriving DecidableEq, Repr

def TaskStatus.toJson (s : TaskStatus) : Json :=
  .record [("id", some (.string s.id)), ("enabled", some (.bool s.enabled)),
    ("lastExecuted", s.lastExecuted.map Instant.toJson),
    ("nextExecution", s.nextExecution.map Instant.toJson),
    ("errorMessage", s.errorMessage.map .string)]

def Service.status {φ : Type} (s : Service φ) (id : String) : Except TaskError TaskStatus :=
  (s.get id).map fun t =>
    ⟨t.id, t.enabled, t.lastExecuted, t.nextExecution,
      (s.history.latest? id).bind (·.errorSummary?)⟩

end Snapshots
