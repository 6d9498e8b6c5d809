import Snapshots.Timer.Loop
import Snapshots.Timer.Manual

/-! # Timer engines

A timer of either kind, and the registry that keeps one entry of it for each task.
-/

namespace Snapshots.Timer

open Time

inductive Engine (ι : Type) where
  | manual (timer : Manual ι)
  | looping (timer : Loop ι)

namespace Engine

variable {ι : Type}

def register (e : Engine ι) (wall : Instant) (expression : String) (job : ι) :
    Engine ι × Except RegisterError Handle :=
  match e with
  | manual m =>
    let (m, r) := m.register wall expression job
    (manual m, r)
  | looping l =>
    let (l, r) := l.register wall expression job
    (looping l, r)

def unregister (h : Handle) : Engine ι → Engine ι
  | manual m => manual (m.unregister h)
  | looping l => looping (l.unregister h)

def next? (h : Handle) : Engine ι → Option Instant
  | manual m => m.next? h
  | looping l => l.next? h

def job? (h : Handle) : Engine ι → Option ι
  | manual m => m.job? h
  | looping l => (l.entries.get? h).map (·.job)

def contains (e : Engine ι) (h : Handle) : Bool :=
  (e.job? h).isSome

def size : Engine ι → Nat
  | manual m => m.entries.size
  | looping l => l.entries.size

end Engine

/-- The entries of an engine that stand for tasks, by the identities of the tasks. -/
abbrev Registry := Table String Handle

namespace Registry

variable {ι : Type}

def unregister (r : Registry) (e : Engine ι) (id : String) : Registry × Engine ι :=
  match r.get? id with
  | none => (r, e)
  | some h => (r.erase id, e.unregister h)

/-- The registry and the engine after they were asked for an entry for a task. An entry that the
task has is removed first, so that it never has two. -/
def register (r : Registry) (e : Engine ι) (wall : Instant) (id expression : String) (job : ι) :
    Registry × Engine ι × Except RegisterError Handle :=
  let (r, e) := unregister r e id
  match e.register wall expression job with
  | (e, .ok h) => (r.insert id h, e, .ok h)
  | (e, .error f) => (r, e, .error f)

def next? (r : Registry) (e : Engine ι) (id : String) : Option Instant := do
  let h ← r.get? id
  e.next? h

end Registry

end Snapshots.Timer
