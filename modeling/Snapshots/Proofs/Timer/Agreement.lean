import Snapshots.Proofs.Table
import Snapshots.Proofs.Timer.Current
import Snapshots.Timer.Engine

/-! # Timers that agree

A timer that is moved by hand finds the due time of an entry anew whenever it is asked, and a timer
with a loop keeps it until it has come. Nobody who registers, removes and asks can tell them apart,
as long as the clock is not set back and no registration is made to fail. Main statement:
`sights_eq`.
-/

namespace Snapshots.Timer

open Cron Time

variable {ι : Type}

/-- The engine at an instant: a timer moved by hand is set to it, and a timer with a loop makes a
pass. -/
def Engine.advance (now : Instant) : Engine ι → Engine ι
  | manual m => manual { m with now }
  | looping l => looping (l.pass now).1

/-- What is done to a timer. -/
inductive Action (ι : Type) where
  | register (expression : String) (job : ι)
  | unregister (h : Handle)
  | advance (now : Instant)

/-- The clock is never set back. -/
def Onward (now : Instant) : List (Action ι) → Prop
  | [] => True
  | .advance now' :: as => now ≤ now' ∧ Onward now' as
  | _ :: as => Onward now as

/-- An engine and the wall clock. -/
structure Clocked (ι : Type) where
  engine : Engine ι
  wall : Instant

/-- What can be seen of a timer after an action: the answer to a registration, and all that can be
asked about handles. -/
structure Sight where
  answer? : Option (Except RegisterError Handle)
  contains : Handle → Bool
  size : Nat
  next? : Handle → Option Instant

namespace Clocked

/-- The engine after an action, and the answer to a registration. -/
def act (c : Clocked ι) : Action ι → Clocked ι × Option (Except RegisterError Handle)
  | .register expression job =>
    let (engine, answer) := c.engine.register c.wall expression job
    ({ c with engine }, some answer)
  | .unregister h => ({ c with engine := c.engine.unregister h }, none)
  | .advance now => (⟨c.engine.advance now, now⟩, none)

/-- What is seen after each of some actions. -/
def sights (c : Clocked ι) : List (Action ι) → List Sight
  | [] => []
  | a :: as =>
    let (c, answer?) := c.act a
    ⟨answer?, c.engine.contains, c.engine.size, fun h => c.engine.next? h⟩ :: c.sights as

end Clocked

/-- Two timers have the same entries under the same handles, and those of the loop are up to date
by the clock of the other. -/
structure Agree (m : Manual ι) (l : Loop ι) (now : Instant) : Prop where
  now_eq : m.now = now
  rejecting_eq : m.rejecting = false
  failures_eq : m.failures = 0
  lastNumber_eq : m.lastNumber = l.lastNumber
  get?_eq : ∀ h, m.entries.get? h = (l.entries.get? h).map fun e => (e.schedule, e.job)
  current : ∀ {h e}, l.entries.get? h = some e → Loop.Entry.CurrentAt now e

namespace Agree

variable {m : Manual ι} {l : Loop ι} {now : Instant}

theorem new (now : Instant) : Agree (.new now) (.new : Loop ι) now :=
  ⟨rfl, rfl, rfl, rfl, fun _ => rfl, fun h => by cases h⟩

theorem contains_eq (a : Agree m l now) (h : Handle) :
    (Engine.manual m).contains h = (Engine.looping l).contains h := by
  simp [Engine.contains, Engine.job?, Manual.job?, a.get?_eq]

theorem size_eq (a : Agree m l now) : (Engine.manual m).size = (Engine.looping l).size :=
  Table.size_eq_of_contains_eq fun h => by simp [Table.contains, a.get?_eq]

theorem next?_eq (a : Agree m l now) (h : Handle) :
    (Engine.manual m).next? h = (Engine.looping l).next? h := by
  simp only [Engine.next?, Manual.next?, Loop.next?, a.get?_eq, a.now_eq]
  cases hget : l.entries.get? h with
  | none => rfl
  | some e => exact (a.current hget).next?_eq.symm

theorem register (a : Agree m l now) (expression : String) (job : ι) :
    (m.register now expression job).2 = (l.register now expression job).2 ∧
      Agree (m.register now expression job).1 (l.register now expression job).1 now := by
  have hon : ¬ m.rejecting = true := by simp [a.rejecting_eq]
  have hsound : ¬ 0 < m.failures := by simp [a.failures_eq]
  rw [Manual.register, if_neg hon, if_neg hsound, Loop.register]
  cases hp : Schedule.parse now expression with
  | error e => exact ⟨rfl, a⟩
  | ok schedule =>
    refine ⟨by rw [a.lastNumber_eq], a.now_eq, a.rejecting_eq, a.failures_eq, ?_, fun h => ?_, ?_⟩
    · rw [Loop.lastNumber_notify]
      exact congrArg (· + 1) a.lastNumber_eq
    · rw [Loop.entries_notify, Loop.get?_insert, Table.get?_insert, a.lastNumber_eq, a.get?_eq]
      split <;> rfl
    · intro h e he
      rw [Loop.entries_notify] at he
      rcases Loop.Entry.currentAt_of_insert hp he with hc | he
      · exact hc
      · exact a.current he

theorem unregister (a : Agree m l now) (h : Handle) :
    Agree (m.unregister h) (l.unregister h) now := by
  refine ⟨a.now_eq, a.rejecting_eq, a.failures_eq, ?_, fun k => ?_, ?_⟩
  · rw [Loop.lastNumber_unregister]
    exact a.lastNumber_eq
  · rw [Loop.get?_unregister, Manual.unregister, Table.get?_erase, a.get?_eq]
    split <;> rfl
  · intro k e hk
    rw [Loop.get?_unregister] at hk
    split at hk
    · cases hk
    · exact a.current hk

theorem advance (a : Agree m l now) {now' : Instant} (hle : now ≤ now') :
    Agree { m with now := now' } (l.pass now').1 now' := by
  refine ⟨rfl, a.rejecting_eq, a.failures_eq, a.lastNumber_eq, fun h => ?_, ?_⟩
  · rw [Loop.get?_pass, a.get?_eq, Option.map_map]
    congr 1
    funext e
    simp only [Function.comp_apply, Loop.schedule_advance, Loop.job_advance]
  · intro h e he
    rw [Loop.get?_pass] at he
    obtain ⟨e₀, he₀, rfl⟩ := Option.map_eq_some_iff.1 he
    exact (a.current he₀).advance hle

theorem sights (a : Agree m l now) {as : List (Action ι)} (has : Onward now as) :
    Clocked.sights ⟨.manual m, now⟩ as = Clocked.sights ⟨.looping l, now⟩ as := by
  induction as generalizing m l now with
  | nil => rfl
  | cons action as ih =>
    have hsee : ∀ {m' l' now'} (answer? : Option (Except RegisterError Handle)),
        Agree m' l' now' → Onward now' as →
        (⟨answer?, (Engine.manual m').contains, (Engine.manual m').size,
          fun h => (Engine.manual m').next? h⟩ : Sight) :: Clocked.sights ⟨.manual m', now'⟩ as =
        ⟨answer?, (Engine.looping l').contains, (Engine.looping l').size,
          fun h => (Engine.looping l').next? h⟩ :: Clocked.sights ⟨.looping l', now'⟩ as := by
      intro m' l' now' answer? a' has'
      rw [ih a' has', a'.size_eq, funext a'.contains_eq, funext a'.next?_eq]
    cases action with
    | register expression job =>
      obtain ⟨hanswer, a'⟩ := a.register expression job
      have h := hsee (some (m.register now expression job).2) a' has
      rw [hanswer] at h
      simpa only [Clocked.sights, Clocked.act, Engine.register, hanswer] using h
    | unregister h => exact hsee none (a.unregister h) has
    | advance now' => exact hsee none (a.advance has.1) has.2

end Agree

/-- From the same instant on, a timer moved by hand and a timer with a loop answer every
registration with the same handle or the same error, and after every action they have the same
entries, as many, with the same due times, if the clock is not set back. -/
theorem sights_eq (now : Instant) (actions : List (Action ι)) (h : Onward now actions) :
    Clocked.sights ⟨.manual (.new now), now⟩ actions =
      Clocked.sights ⟨.looping .new, now⟩ actions :=
  (Agree.new now).sights h

/-- An entry that misses a fire time, one that is refused, and one that is removed. -/
theorem sights_eq_sample : ∃ (now later : Instant) (actions : List (Action Unit)),
    Onward now actions ∧
      Clocked.sights ⟨.manual (.new now), now⟩ actions =
        Clocked.sights ⟨.looping .new, now⟩ actions ∧
      (Clocked.sights ⟨.looping .new, now⟩ actions).map (fun s => (s.size, s.next? ⟨1⟩)) =
        [(1, Instant.ofParts? 3600 0), (1, Instant.ofParts? 3600 0), (2, Instant.ofParts? 3600 0),
          (2, some later), (1, none)] := by
  let now : Instant := default
  let later : Instant := ⟨10800, 0, by decide, by decide, by decide⟩
  let actions : List (Action Unit) := [.register "0 0 * * * *" (), .register "* * * * *" (),
    .register "* * * * * *" (), .advance ⟨9000, 0, by decide, by decide, by decide⟩,
    .unregister ⟨1⟩]
  have hactions : Onward now actions := by
    simp only [actions, Onward]
    decide
  refine ⟨now, later, actions, hactions, sights_eq now actions hactions, ?_⟩
  decide +kernel

end Snapshots.Timer
