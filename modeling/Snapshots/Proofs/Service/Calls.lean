import Snapshots.Proofs.Service.Deeds

/-! # Calls and what callers see

Callers create, update, toggle, delete and run tasks one after the other, and see the replies, the
list of the tasks and the task file. Between calls the service may be dropped and another one
started over its file.
-/

namespace Snapshots

open Firing Timer Time

namespace Service

/-- What happens while a firing is under way: the work on one of its clusters takes a step, or the
clusters change. -/
inductive Work (φ : Type) where
  | step (unit : Nat)
  | change (f : φ → φ)

/-- What a caller asks for. A firing comes with the work that is done until it ends. -/
inductive Call (φ : Type) where
  | create (d : Definition) (createdBy : String)
  | update (id : String) (d : Definition)
  | toggle (id : String)
  | delete (id : String)
  | run (id : String) (works : List (Work φ)) (finishedAt : Instant)

def Call.deed {φ : Type} : Call φ → Deed φ
  | create d createdBy => .create d createdBy
  | update id d => .update id d
  | toggle id => .toggle id
  | delete id => .delete id
  | run id .. => .run id

/-- What a caller gets back: a task, nothing to tell, or the record of a firing as soon as it has
ended. -/
inductive Reply where
  | task (t : Task)
  | done
  | fired (r : Option Record)
  | error (e : TaskError)

namespace Reply

def ofTask : Except TaskError Task → Reply
  | .ok t => task t
  | .error e => error e

def ofUnit : Except TaskError Unit → Reply
  | .ok () => done
  | .error e => error e

def kept : Reply → Reply
  | task t => task (Store.kept t)
  | r => r

def isError : Reply → Bool
  | error _ => true
  | _ => false

end Reply

def unavailable : Answer → Bool
  | .error (.unavailable _) => true
  | _ => false

def Available (as : List Answer) : Prop :=
  ∀ a ∈ as, unavailable a = false

instance (as : List Answer) : Decidable (Available as) :=
  inferInstanceAs (Decidable (∀ a ∈ as, unavailable a = false))

/-- What happens to a service: a call, with the time and what became of the clusters since the last
one; a turn of its timer; or the start of another service in its place, with a timer of its own. -/
inductive Step (φ : Type) where
  | call (m : Moment) (change : φ → φ) (c : Call φ)
  | turn (t : Turn)
  | restart (m : Moment) (engine : Engine Job) (owner : Nat)

/-- Whether a step keeps the service. -/
def Step.keepsService {φ : Type} : Step φ → Bool
  | restart .. => false
  | _ => true

/-- What can be seen after a call: the reply, the list of the tasks and the task file. -/
structure Seen where
  reply : Reply
  list : List Task
  document : Except FileError Content

variable {φ σ : Type} [Fleet φ σ]

/-- The clusters and a firing after some work. -/
def workThrough : φ → Flight σ → List (Work φ) → φ × Flight σ
  | fleet, flight, [] => (fleet, flight)
  | fleet, flight, .step unit :: works =>
    let (fleet, flight) := flight.step fleet unit
    workThrough fleet flight works
  | fleet, flight, .change f :: works => workThrough (f fleet) flight works

/-- The service after a call, and the reply. -/
def call (s : Service φ) (m : Moment) : Call φ → Service φ × Reply
  | .create d createdBy =>
    let (s, r) := s.create m d createdBy
    (s, .ofTask r)
  | .update id d =>
    let (s, r) := s.update m id d
    (s, .ofTask r)
  | .toggle id =>
    let (s, r) := s.toggle m id
    (s, .ofTask r)
  | .delete id =>
    let (s, r) := s.delete m id
    (s, .ofUnit r)
  | .run id works finishedAt =>
    match s.run m id with
    | (s, .error e) => (s, .error e)
    | (s, .ok flight) =>
      let (fleet, flight) := workThrough s.fleet flight works
      let s := { s with fleet }
      match flight.record? finishedAt with
      | some r => ((s.conclude r).settle r.taskId, .fired (some r))
      | none => (s, .fired none)

def keptList (s : Service φ) : List Task :=
  s.list.map Store.kept

def document (s : Service φ) : Except FileError Content :=
  s.files.read s.options.path

def restarted (s : Service φ) (m : Moment) (engine : Engine Job) (owner : Nat) : Service φ :=
  start ⟨engine, s.files, s.fleet⟩ owner s.options m

def changed (s : Service φ) (f : φ → φ) : Service φ :=
  { s with fleet := f s.fleet }

def visit (s : Service φ) : Step φ → Service φ × Option Reply
  | .call m change c =>
    let (s, r) := (s.changed change).call m c
    (s, some r)
  | .turn t => (s.turn t, none)
  | .restart m engine owner => (s.restarted m engine owner, none)

/-- The service after some steps, and what was seen after each call, due times left out. -/
def play (s : Service φ) : List (Step φ) → Service φ × List Seen
  | [] => (s, [])
  | x :: xs =>
    let (s', r) := s.visit x
    let (s'', seen) := s'.play xs
    (s'', (r.map fun r => ⟨r.kept, s'.keptList, s'.document⟩).toList ++ seen)

/-- The save of a call succeeds. A call that is refused does not save. -/
def CallSaves (m : Moment) (s : Service φ) (p : Service φ × Reply) : Prop :=
  p.2.isError = false →
    (Store.saveWith m.fails s.options.process s.files s.options.path p.1.tasks.values).2 = .ok ()

instance (m : Moment) (s : Service φ) (p : Service φ × Reply) : Decidable (CallSaves m s p) :=
  inferInstanceAs (Decidable (p.2.isError = false → _))

/-- What holds of every service that some steps come to, and of the step that it takes. -/
def Throughout (p : Service φ → Step φ → Prop) (s : Service φ) : List (Step φ) → Prop
  | [] => True
  | x :: xs => p s x ∧ (s.visit x).1.Throughout p xs

instance decidableThroughout (p : Service φ → Step φ → Prop) [∀ s x, Decidable (p s x)] :
    ∀ (s : Service φ) (xs : List (Step φ)), Decidable (s.Throughout p xs)
  | _, [] => inferInstanceAs (Decidable True)
  | s, x :: xs =>
    let _ := decidableThroughout p (s.visit x).1 xs
    inferInstanceAs (Decidable (p s x ∧ _))

/-- The save of a step succeeds, if it has one. -/
def Saves (s : Service φ) : Step φ → Prop
  | .call m change c => CallSaves m (s.changed change) ((s.changed change).call m c)
  | _ => True

/-- The timer does not answer to a call that it is unavailable. -/
def TimerAvailable (s : Service φ) : Step φ → Prop
  | .call m change c => Available ((s.changed change).answers m c.deed)
  | _ => True

instance (s : Service φ) : ∀ x, Decidable (Saves s x)
  | .call .. => inferInstanceAs (Decidable (CallSaves _ _ _))
  | .turn _ => inferInstanceAs (Decidable True)
  | .restart .. => inferInstanceAs (Decidable True)

instance (s : Service φ) : ∀ x, Decidable (TimerAvailable s x)
  | .call .. => inferInstanceAs (Decidable (Available _))
  | .turn _ => inferInstanceAs (Decidable True)
  | .restart .. => inferInstanceAs (Decidable True)

end Service

end Snapshots
