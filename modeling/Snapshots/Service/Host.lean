import Snapshots.Service.Run

/-! # Hosts

A host runs a service together with the firings that are under way. A service that was replaced
stays as long as a firing of its own is under way; its timer entries do nothing after that.
-/

namespace Snapshots

open Firing

/-- A firing under way, with its number and the service that it belongs to. -/
structure Errand (σ : Type) where
  number : Nat
  owner : Nat
  flight : Flight σ

/-- A service with its firings under way, and the services before it. -/
structure Host (φ σ : Type) extends Service φ where
  former : List Desk := []
  errands : List (Errand σ) := []
  launched : Nat := 0

namespace Host

variable {φ σ : Type} [Fleet φ σ]

/-- A host whose service starts with the tasks of its file. -/
def start (site : Site φ) (options : Options) (m : Moment) : Host φ σ :=
  { Service.start site 0 options m with }

/-- The host with its service replaced by one that starts at a site. -/
def succeed (h : Host φ σ) (site : Site φ) (m : Moment) : Host φ σ :=
  { Service.start site (h.owner + 1) h.options m with
    former := h.toDesk :: h.former
    errands := h.errands
    launched := h.launched }

def service? (h : Host φ σ) (owner : Nat) : Option (Service φ) :=
  if owner = h.owner then some h.toService
  else if h.errands.any (·.owner = owner) then
    (h.former.find? (·.owner = owner)).map fun desk => { h.toSite, desk with }
  else none

def keep (h : Host φ σ) (s : Service φ) : Host φ σ :=
  if s.owner = h.owner then { h with toService := s }
  else
    { h with
      toSite := s.toSite
      former := h.former.map fun desk => if desk.owner = s.owner then s.toDesk else desk }

/-- The host with a firing more, and its number. -/
def dispatch (h : Host φ σ) (owner : Nat) (f : Flight σ) : Host φ σ × Nat :=
  ({ h with
    errands := h.errands ++ [⟨h.launched, owner, f⟩]
    launched := h.launched + 1 }, h.launched)

/-- The host after a job was started, and the number of the firing if that began one. -/
def runJob (h : Host φ σ) (m : Moment) (job : Job) : Host φ σ × Option Nat :=
  match h.service? job.owner with
  | none => (h, none)
  | some s =>
    match s.runJob m job with
    | (s, none) => (h.keep s, none)
    | (s, some flight) =>
      let (h, number) := (h.keep s).dispatch job.owner flight
      (h, some number)

/-- The host after a task was to be fired at once, and the number of the firing. -/
def run (h : Host φ σ) (m : Moment) (id : String) : Host φ σ × Except TaskError Nat :=
  match h.toService.run m id with
  | (s, .error e) => (h.keep s, .error e)
  | (s, .ok flight) =>
    let (h, number) := (h.keep s).dispatch h.owner flight
    (h, .ok number)

/-- The host after the work of a firing was carried on, and its record if that ended it. -/
def carryOn (h : Host φ σ) (m : Moment) (e : Errand σ) :
    Host φ σ × Errand σ × Option Record :=
  let (fleet, flight) := e.flight.run h.fleet
  let h := { h with fleet }
  match flight.record? m.now, h.service? e.owner with
  | some r, some s =>
    (h.keep ((s.conclude r).settle r.taskId), { e with flight }, some r)
  | _, _ => (h, { e with flight }, none)

/-- The host after the work of some firings was carried on, with those that go on, and the records
of the others under their numbers. -/
def carryOnAll (h : Host φ σ) (m : Moment) :
    List (Errand σ) → Host φ σ × List (Errand σ) × List (Nat × Record)
  | [] => (h, [], [])
  | e :: es =>
    match h.carryOn m e with
    | (h, e, none) =>
      let (h, es, records) := h.carryOnAll m es
      (h, e :: es, records)
    | (h, e, some r) =>
      let (h, es, records) := h.carryOnAll m es
      (h, es, (e.number, r) :: records)

def advance (h : Host φ σ) (m : Moment) : Host φ σ × List (Nat × Record) :=
  let (h, errands, records) := h.carryOnAll m h.errands
  ({ h with errands }, records)

/-- The host after the loop of its timer ran until it parked. -/
def wake (h : Host φ σ) (m : Moment) : Host φ σ :=
  match h.engine with
  | .manual _ => h
  | .looping l =>
    let (l, jobs) := (l.expire m.monotonic).settle m.now m.monotonic
    jobs.foldl (fun h (_, job) => (h.runJob m job).1) { h with engine := .looping l }

/-- The host after everything that can go on went on, and the records of the firings that
ended. -/
def settle (h : Host φ σ) (m : Moment) : Host φ σ × List (Nat × Record) :=
  (h.wake m).advance m

end Host

end Snapshots
