import Snapshots.Table
import Snapshots.Timer.Basic

/-! # The timer loop

A timer with a loop of its own: it reads the clock, collects the entries that are due, and parks
until the earliest due time of all entries. A change of the entries leaves a permit that wakes
the loop, or keeps it from parking. Each entry that is due is collected once, however many of
its fire times have passed.
-/

namespace Snapshots.Timer

open Cron Time

/-- An entry of a timer with a loop. -/
structure Entry (ι : Type) where
  schedule : Schedule
  /-- When the entry is due, unless it has no further fire time. -/
  next? : Option Instant
  job : ι

inductive Phase where
  | idle
  /-- The clock is to be read. -/
  | awake
  /-- The clock was read. -/
  | read (now : Instant)
  /-- What was due is collected; the earliest due time is known. -/
  | collected (now : Instant) (wake? : Option Instant)
  /-- Waiting up to a reading of the monotonic clock, in nanoseconds. -/
  | parked (now : Instant) (wake? : Option Instant) (deadline : Nat)
  | stopped
  deriving DecidableEq, Repr

/-- A timer with a loop. -/
structure Loop (ι : Type) where
  entries : Table Handle (Entry ι)
  lastNumber : Nat
  /-- A change that the loop has not been told of. -/
  permit : Bool
  phase : Phase
  stopping : Bool

/-- How long the loop parks when no entry is due any more, in nanoseconds. -/
def idleNanos : Nat := 3600 * nanosPerSecond

namespace Loop

variable {ι : Type}

def new : Loop ι :=
  ⟨.empty, 0, false, .idle, false⟩

/-- The timer with a new entry, before its loop is told. -/
def insert (l : Loop ι) (now : Instant) (schedule : Schedule) (job : ι) : Loop ι :=
  { l with
    entries := l.entries.insert ⟨l.lastNumber + 1⟩
      ⟨schedule, schedule.pattern.next? now, job⟩
    lastNumber := l.lastNumber + 1 }

/-- The timer without an entry, before its loop is told. -/
def remove (l : Loop ι) (h : Handle) : Loop ι :=
  { l with entries := l.entries.erase h }

/-- A parked loop is woken, and any other finds the permit when it is about to park. -/
def notify (l : Loop ι) : Loop ι :=
  match l.phase with
  | .parked .. => { l with phase := .awake }
  | _ => { l with permit := true }

@[simp] theorem entries_notify (l : Loop ι) : l.notify.entries = l.entries := by
  unfold notify
  split <;> rfl

@[simp] theorem lastNumber_notify (l : Loop ι) : l.notify.lastNumber = l.lastNumber := by
  unfold notify
  split <;> rfl

def readClock (l : Loop ι) (now : Instant) : Loop ι :=
  match l.phase with
  | .awake => { l with phase := .read now }
  | _ => l

/-- An entry is due if its fire time has come. -/
def Entry.dueAt (e : Entry ι) (now : Instant) : Bool :=
  e.next?.any (· ≤ now)

/-- An entry after a look at it: one that was due goes on to its next fire time. -/
def Entry.advance (now : Instant) (e : Entry ι) : Entry ι :=
  if Entry.dueAt e now then { e with next? := e.schedule.pattern.next? now } else e

/-- The entries that are due, in the order of their registration. -/
def due (l : Loop ι) (now : Instant) : List (Handle × ι) :=
  (l.entries.entries.filter fun (_, e) => Entry.dueAt e now).map fun (h, e) => (h, e.job)

def earlier? : Option Instant → Option Instant → Option Instant
  | some a, some b => some (if b < a then b else a)
  | some a, none => some a
  | none, b => b

def earliest? (entries : Table Handle (Entry ι)) : Option Instant :=
  entries.values.foldl (fun acc e => earlier? acc e.next?) none

def collect (l : Loop ι) : Loop ι × List (Handle × ι) :=
  match l.phase with
  | .read now =>
    let entries := l.entries.mapValues fun _ => Entry.advance now
    ({ l with entries, phase := .collected now (earliest? entries) }, l.due now)
  | _ => (l, [])

/-- How long to park after a reading of the clock. -/
def parkNanos (now : Instant) : Option Instant → Nat
  | some wake => now.nanosUntil wake
  | none => idleNanos

/-- The loop parks, unless it has to stop or finds a permit. -/
def park (l : Loop ι) (monotonic : Nat) : Loop ι :=
  match l.phase with
  | .collected now wake? =>
    if l.stopping then { l with phase := .stopped }
    else if l.permit then { l with permit := false, phase := .awake }
    else { l with phase := .parked now wake? (monotonic + parkNanos now wake?) }
  | _ => l

def expire (l : Loop ι) (monotonic : Nat) : Loop ι :=
  match l.phase with
  | .parked _ _ deadline => if deadline ≤ monotonic then { l with phase := .awake } else l
  | _ => l

/-- The loop is started, unless it runs. -/
def start (l : Loop ι) : Loop ι :=
  match l.phase with
  | .idle | .stopped => { l with phase := .awake }
  | _ => l

def shutdown (l : Loop ι) : Loop ι :=
  match l.phase with
  | .parked .. => { l with phase := .stopped, stopping := true }
  | _ => { l with stopping := true }

def round (l : Loop ι) (now : Instant) (monotonic : Nat) : Loop ι × List (Handle × ι) :=
  let (l, jobs) := (l.readClock now).collect
  (l.park monotonic, jobs)

/-- The loop carried on until it parks. A permit can keep it from that only once. -/
def settle (l : Loop ι) (now : Instant) (monotonic : Nat) : Loop ι × List (Handle × ι) :=
  let (l, jobs) := l.round now monotonic
  let (l, more) := l.round now monotonic
  (l, jobs ++ more)

/-- The timer after it was asked for an entry, and the handle. -/
def register (l : Loop ι) (now : Instant) (expression : String) (job : ι) :
    Loop ι × Except RegisterError Handle :=
  match Schedule.parse now expression with
  | .error e => (l, .error (.rejected e))
  | .ok schedule => ((l.insert now schedule job).notify, .ok ⟨l.lastNumber + 1⟩)

def unregister (l : Loop ι) (h : Handle) : Loop ι :=
  if l.entries.contains h then (l.remove h).notify else l

def next? (l : Loop ι) (h : Handle) : Option Instant := do
  let e ← l.entries.get? h
  e.next?

variable {l l' : Loop ι} {now : Instant} {expression : String} {job : ι} {h : Handle}

/-- A registration that succeeds adds one entry under a handle of its own. -/
theorem register_ok (hr : l.register now expression job = (l', .ok h)) :
    ∃ schedule, Schedule.parse now expression = .ok schedule ∧ h = ⟨l.lastNumber + 1⟩ ∧
      l'.lastNumber = l.lastNumber + 1 ∧ ∀ k, l'.entries.get? k =
        if k = h then some ⟨schedule, schedule.pattern.next? now, job⟩ else l.entries.get? k := by
  unfold register at hr
  split at hr
  · cases hr
  · rename_i schedule hp
    cases hr
    refine ⟨schedule, hp, rfl, by simp [insert], fun k => ?_⟩
    rw [entries_notify]
    exact Table.get?_insert ..

theorem register_error {f : RegisterError} (hr : l.register now expression job = (l', .error f)) :
    l' = l := by
  unfold register at hr
  split at hr <;> cases hr
  rfl

theorem get?_unregister (l : Loop ι) (h k : Handle) :
    (l.unregister h).entries.get? k = if k = h then none else l.entries.get? k := by
  unfold unregister
  split
  · rw [entries_notify]
    exact Table.get?_erase ..
  · rename_i hc
    split
    · rename_i hk
      rw [hk]
      simpa [Table.contains] using hc
    · rfl

@[simp] theorem lastNumber_unregister (l : Loop ι) (h : Handle) :
    (l.unregister h).lastNumber = l.lastNumber := by
  unfold unregister
  split
  · rw [lastNumber_notify]
    rfl
  · rfl

end Loop

end Snapshots.Timer
