import Mathlib.Data.List.Nodup
import Snapshots.Timer.Engine

/-! # Entries of timers and registries

What registration and removal do to the entries of a timer of either kind, read through one view:
the schedule and the job of a handle. A registry whose handles are the live ones, each once, has
as many keys as its timer has entries.
-/

namespace Snapshots.Timer

open Cron Time

variable {ι : Type}

inductive Turn where
  | setClock (now : Instant)
  | setFaults (rejecting : Bool) (failures : Nat)
  | startLoop
  | shutdownLoop
  | readClock (now : Instant)
  | collect
  | park (monotonic : Nat)
  | expire (monotonic : Nat)
  deriving DecidableEq, Repr

namespace Engine

/-- The schedule and the job of an entry. -/
def lookup (h : Handle) : Engine ι → Option (Schedule × ι)
  | manual m => m.entries.get? h
  | looping l => (l.entries.get? h).map fun e => (e.schedule, e.job)

def lastNumber : Engine ι → Nat
  | manual m => m.lastNumber
  | looping l => l.lastNumber

def clock? : Engine ι → Option Instant
  | manual m => some m.now
  | looping _ => none

def keys : Engine ι → List Handle
  | manual m => m.entries.keys
  | looping l => l.entries.keys

/-- The engine after a turn; a turn for the other kind of timer changes nothing. -/
def turn (t : Turn) : Engine ι → Engine ι
  | manual m => manual <| match t with
    | .setClock now => { m with now }
    | .setFaults rejecting failures => { m with rejecting, failures }
    | _ => m
  | looping l => looping <| match t with
    | .startLoop => l.start
    | .shutdownLoop => l.shutdown
    | .readClock now => l.readClock now
    | .collect => l.collect.1
    | .park monotonic => l.park monotonic
    | .expire monotonic => l.expire monotonic
    | _ => l

theorem mem_keys_iff (e : Engine ι) (h : Handle) : h ∈ e.keys ↔ ∃ x, e.lookup h = some x := by
  cases e <;> simp [keys, lookup, Table.mem_keys_iff]

theorem job?_eq (e : Engine ι) (h : Handle) : e.job? h = (e.lookup h).map Prod.snd := by
  cases e with
  | manual m => rfl
  | looping l => simp [job?, lookup, Function.comp_def]

theorem contains_iff (e : Engine ι) (h : Handle) :
    e.contains h = true ↔ ∃ x, e.lookup h = some x := by
  cases e <;> simp [contains, job?, Manual.job?, lookup, Option.isSome_iff_exists]

theorem length_keys (e : Engine ι) : e.keys.length = e.size := by
  cases e <;> simp [keys, size, Table.keys, Table.size]

theorem nodup_keys (e : Engine ι) : e.keys.Nodup := by
  cases e with
  | manual m => exact m.entries.nodup
  | looping l => exact l.entries.nodup

theorem lookup_eq_none_of_size_eq_zero {e : Engine ι} (he : e.size = 0) (h : Handle) :
    e.lookup h = none := by
  have hk : e.keys = [] := List.length_eq_zero_iff.1 (e.length_keys.trans he)
  by_contra hn
  obtain ⟨x, hx⟩ := Option.ne_none_iff_exists'.1 hn
  simpa [hk] using (e.mem_keys_iff h).2 ⟨x, hx⟩

@[simp] theorem lookup_unregister (e : Engine ι) (h k : Handle) :
    (e.unregister h).lookup k = if k = h then none else e.lookup k := by
  cases e with
  | manual m => simp [unregister, Manual.unregister, lookup, Table.get?_erase]
  | looping l =>
    simp only [unregister, lookup, Loop.get?_unregister]
    split <;> rfl

@[simp] theorem lastNumber_unregister (e : Engine ι) (h : Handle) :
    (e.unregister h).lastNumber = e.lastNumber := by
  cases e with
  | manual m => rfl
  | looping l => exact l.lastNumber_unregister h

theorem turn_frame (e : Engine ι) (t : Turn) :
    (e.turn t).lastNumber = e.lastNumber ∧ ∀ h, (e.turn t).lookup h = e.lookup h := by
  cases e with
  | manual m => cases t <;> exact ⟨rfl, fun _ => rfl⟩
  | looping l =>
    cases t with
    | setClock now => exact ⟨rfl, fun _ => rfl⟩
    | setFaults rejecting failures => exact ⟨rfl, fun _ => rfl⟩
    | startLoop => simp only [turn, Loop.start]; split <;> exact ⟨rfl, fun _ => rfl⟩
    | shutdownLoop => simp only [turn, Loop.shutdown]; split <;> exact ⟨rfl, fun _ => rfl⟩
    | readClock now => simp only [turn, Loop.readClock]; split <;> exact ⟨rfl, fun _ => rfl⟩
    | park monotonic =>
      simp only [turn, Loop.park]
      split
      · split
        · exact ⟨rfl, fun _ => rfl⟩
        · split <;> exact ⟨rfl, fun _ => rfl⟩
      · exact ⟨rfl, fun _ => rfl⟩
    | expire monotonic =>
      simp only [turn, Loop.expire]
      split
      · split <;> exact ⟨rfl, fun _ => rfl⟩
      · exact ⟨rfl, fun _ => rfl⟩
    | collect =>
      simp only [turn, Loop.collect]
      split
      · refine ⟨rfl, fun h => ?_⟩
        simp only [lookup, Table.get?_mapValues, Option.map_map]
        congr 1
        funext e
        simp only [Function.comp_apply, Loop.Entry.advance]
        split <;> rfl
      · exact ⟨rfl, fun _ => rfl⟩

@[simp] theorem lookup_turn (e : Engine ι) (t : Turn) (h : Handle) :
    (e.turn t).lookup h = e.lookup h :=
  (e.turn_frame t).2 h

@[simp] theorem lastNumber_turn (e : Engine ι) (t : Turn) :
    (e.turn t).lastNumber = e.lastNumber :=
  (e.turn_frame t).1

theorem register_error {e e' : Engine ι} {wall : Instant} {x : String} {job : ι}
    {f : RegisterError} (h : e.register wall x job = (e', .error f)) :
    (∀ k, e'.lookup k = e.lookup k) ∧ e'.lastNumber = e.lastNumber := by
  cases e with
  | manual m =>
    simp only [register, Manual.register] at h
    split at h
    · cases h
      exact ⟨fun _ => rfl, rfl⟩
    · split at h
      · cases h
        exact ⟨fun _ => rfl, rfl⟩
      · split at h <;> cases h
        exact ⟨fun _ => rfl, rfl⟩
  | looping l =>
    simp only [register, Loop.register] at h
    split at h <;> cases h
    exact ⟨fun _ => rfl, rfl⟩

theorem register_ok {e e' : Engine ι} {wall : Instant} {x : String} {job : ι} {h : Handle}
    (hr : e.register wall x job = (e', .ok h)) :
    ∃ schedule, Schedule.parse wall x = .ok schedule ∧ h = ⟨e.lastNumber + 1⟩ ∧
      e'.lastNumber = e.lastNumber + 1 ∧
      ∀ k, e'.lookup k = if k = h then some (schedule, job) else e.lookup k := by
  cases e with
  | manual m =>
    simp only [register, Manual.register] at hr
    split at hr
    · cases hr
    · split at hr
      · cases hr
      · split at hr <;> cases hr
        rename_i schedule hp
        exact ⟨schedule, hp, rfl, rfl, fun k => Table.get?_insert ..⟩
  | looping l =>
    cases hl : l.register wall x job with
    | mk l' r =>
      simp only [register, hl] at hr
      cases hr
      obtain ⟨schedule, hp, rfl, hnumber, hentries⟩ := Loop.register_ok hl
      refine ⟨schedule, hp, rfl, hnumber, fun k => ?_⟩
      simp only [lookup, hentries]
      split <;> rfl

theorem register_error_cases {e e' : Engine ι} {wall : Instant} {x : String} {job : ι}
    {f : RegisterError} (h : e.register wall x job = (e', .error f)) :
    (∃ reason, f = .unavailable reason) ∨
      ∃ error, Schedule.parse wall x = .error error ∧ f = .rejected error := by
  cases e with
  | manual m =>
    simp only [register, Manual.register] at h
    split at h
    · cases h
      exact .inl ⟨_, rfl⟩
    · split at h
      · cases h
        exact .inl ⟨_, rfl⟩
      · split at h <;> cases h
        exact .inr ⟨_, ‹_›, rfl⟩
  | looping l =>
    simp only [register, Loop.register] at h
    split at h <;> cases h
    exact .inr ⟨_, ‹_›, rfl⟩

theorem clock?_of_register_error {e e' : Engine ι} {wall : Instant} {x : String} {job : ι}
    {f : RegisterError} {schedule : Schedule} (hp : Schedule.parse wall x = .ok schedule)
    (h : e.register wall x job = (e', .error f)) : ∃ now, e.clock? = some now := by
  cases e with
  | manual m => exact ⟨m.now, rfl⟩
  | looping l =>
    simp only [register, Loop.register, hp] at h
    cases h

@[simp] theorem clock?_register (e : Engine ι) (wall : Instant) (x : String) (job : ι) :
    (e.register wall x job).1.clock? = e.clock? := by
  cases e with
  | manual m =>
    simp only [register, Manual.register]
    split
    · rfl
    · split
      · rfl
      · split <;> rfl
  | looping l => rfl

@[simp] theorem clock?_unregister (e : Engine ι) (h : Handle) :
    (e.unregister h).clock? = e.clock? := by
  cases e <;> rfl

theorem next?_eq {e : Engine ι} {now : Instant} (hc : e.clock? = some now) (h : Handle) :
    e.next? h = (e.lookup h).bind fun entry => entry.1.pattern.next? now := by
  cases e with
  | manual m =>
    cases hc
    rfl
  | looping l => cases hc

theorem next?_register {e e' : Engine ι} {wall : Instant} {x : String} {job : ι} {h : Handle}
    (hr : e.register wall x job = (e', .ok h))
    (hclock : ∀ now, e.clock? = some now → now = wall) :
    ∃ schedule, Schedule.parse wall x = .ok schedule ∧
      e'.next? h = schedule.pattern.next? wall := by
  cases e with
  | manual m =>
    obtain ⟨schedule, hp, -, -, hlookup⟩ := register_ok hr
    have hnow : e'.clock? = some wall := by
      have hkept := (manual m).clock?_register wall x job
      rw [hr] at hkept
      exact hkept.trans (congrArg some (hclock m.now rfl))
    refine ⟨schedule, hp, ?_⟩
    rw [next?_eq hnow, hlookup, if_pos rfl]
    rfl
  | looping l =>
    cases hl : l.register wall x job with
    | mk l' r =>
      simp only [register, hl] at hr
      cases hr
      obtain ⟨schedule, hp, -, -, hentries⟩ := Loop.register_ok hl
      refine ⟨schedule, hp, ?_⟩
      simp only [next?, Loop.next?, hentries, if_true]
      rfl

end Engine

namespace Registry

variable {r r' : Registry} {e e' : Engine ι} {id : String}

@[simp] theorem get?_unregister (r : Registry) (e : Engine ι) (id k : String) :
    (r.unregister e id).1.get? k = if k = id then none else r.get? k := by
  unfold unregister
  split
  · rename_i h
    split
    · rename_i hk
      rw [hk, h]
    · rfl
  · exact Table.get?_erase ..

@[simp] theorem lookup_unregister (r : Registry) (e : Engine ι) (id : String) (h : Handle) :
    (r.unregister e id).2.lookup h = if r.get? id = some h then none else e.lookup h := by
  unfold unregister
  split
  · rename_i hn
    simp [hn]
  · rename_i k hk
    simp [hk, eq_comm]

@[simp] theorem lastNumber_unregister (r : Registry) (e : Engine ι) (id : String) :
    (r.unregister e id).2.lastNumber = e.lastNumber := by
  unfold unregister
  split
  · rfl
  · exact e.lastNumber_unregister _

@[simp] theorem clock?_unregister (r : Registry) (e : Engine ι) (id : String) :
    (r.unregister e id).2.clock? = e.clock? := by
  unfold unregister
  split
  · rfl
  · exact e.clock?_unregister _

theorem unregister_unregister (r : Registry) (e : Engine ι) (id : String) :
    unregister (r.unregister e id).1 (r.unregister e id).2 id = r.unregister e id := by
  have h : (r.unregister e id).1.get? id = none := by simp
  rw [unregister, h]

theorem register_eq (r : Registry) (e : Engine ι) (wall : Instant) (id x : String) (job : ι) :
    r.register e wall id x job =
      match (r.unregister e id).2.register wall x job with
      | (e₁, .ok h) => ((r.unregister e id).1.insert id h, e₁, .ok h)
      | (e₁, .error f) => ((r.unregister e id).1, e₁, .error f) :=
  rfl

theorem register_of_none (hnone : r.get? id = none) (e : Engine ι) (wall : Instant) (x : String)
    (job : ι) : r.register e wall id x job =
      match e.register wall x job with
      | (e₁, .ok h) => (r.insert id h, e₁, .ok h)
      | (e₁, .error f) => (r, e₁, .error f) := by
  have hsame : r.unregister e id = (r, e) := by
    rw [unregister, hnone]
  rw [register_eq, hsame]

@[simp] theorem clock?_register (r : Registry) (e : Engine ι) (wall : Instant) (id x : String)
    (job : ι) : (r.register e wall id x job).2.1.clock? = e.clock? := by
  have hu := r.clock?_unregister e id
  have hr := (r.unregister e id).2.clock?_register wall x job
  rw [register_eq, ← hu, ← hr]
  split
  · rename_i h
    rw [h]
  · rename_i h
    rw [h]

theorem register_error_cases {wall : Instant} {x : String} {job : ι} {f : RegisterError}
    (h : r.register e wall id x job = (r', e', .error f)) :
    (∃ reason, f = .unavailable reason) ∨
      ∃ error, Schedule.parse wall x = .error error ∧ f = .rejected error := by
  rw [register_eq] at h
  split at h
  · cases h
  · rename_i he
    cases h
    exact Engine.register_error_cases he

theorem clock?_of_register_error {wall : Instant} {x : String} {job : ι} {f : RegisterError}
    {schedule : Schedule} (hp : Schedule.parse wall x = .ok schedule)
    (h : r.register e wall id x job = (r', e', .error f)) : ∃ now, e.clock? = some now := by
  rw [register_eq] at h
  split at h
  · cases h
  · rename_i he
    rw [← r.clock?_unregister e id]
    exact Engine.clock?_of_register_error hp he

theorem register_error {wall : Instant} {x : String} {job : ι} {f : RegisterError}
    (h : r.register e wall id x job = (r', e', .error f)) :
    (∀ k, r'.get? k = if k = id then none else r.get? k) ∧
      (∀ k, e'.lookup k = if r.get? id = some k then none else e.lookup k) ∧
      e'.lastNumber = e.lastNumber := by
  rw [register_eq] at h
  split at h
  · cases h
  · rename_i he
    cases h
    obtain ⟨hk, hl⟩ := Engine.register_error he
    exact ⟨get?_unregister r e id, fun k => by rw [hk, lookup_unregister],
      by rw [hl, lastNumber_unregister]⟩

theorem register_ok {wall : Instant} {x : String} {job : ι} {h : Handle}
    (hr : r.register e wall id x job = (r', e', .ok h)) :
    ∃ schedule, Schedule.parse wall x = .ok schedule ∧ h = ⟨e.lastNumber + 1⟩ ∧
      e'.lastNumber = e.lastNumber + 1 ∧
      (∀ k, r'.get? k = if k = id then some h else r.get? k) ∧
      ∀ k, e'.lookup k = if k = h then some (schedule, job)
        else if r.get? id = some k then none else e.lookup k := by
  rw [register_eq] at hr
  split at hr
  · rename_i he
    cases hr
    obtain ⟨schedule, hp, hh, hl, hk⟩ := Engine.register_ok he
    rw [lastNumber_unregister] at hh hl
    refine ⟨schedule, hp, hh, hl, fun k => ?_, fun k => ?_⟩
    · rw [Table.get?_insert, get?_unregister]
      split <;> rfl
    · rw [hk, lookup_unregister]
  · cases hr

theorem next?_register {wall : Instant} {x : String} {job : ι} {h : Handle}
    (hr : r.register e wall id x job = (r', e', .ok h))
    (hclock : ∀ now, e.clock? = some now → now = wall) :
    ∃ schedule, Schedule.parse wall x = .ok schedule ∧
      r'.next? e' id = schedule.pattern.next? wall := by
  rw [register_eq] at hr
  split at hr
  · rename_i he
    cases hr
    rw [← r.clock?_unregister e id] at hclock
    obtain ⟨schedule, hp, hnext⟩ := Engine.next?_register he hclock
    refine ⟨schedule, hp, ?_⟩
    rw [next?, Table.get?_insert_self]
    exact hnext
  · cases hr

theorem size_eq (live : ∀ h, e.contains h = true ↔ ∃ id, r.get? id = some h)
    (distinct : ∀ {id id' h}, r.get? id = some h → r.get? id' = some h → id = id') :
    e.size = r.size := by
  have hv : r.values.Nodup := by
    refine List.Nodup.map_on ?_ (List.Nodup.of_map _ r.nodup)
    rintro ⟨a, h⟩ ha ⟨b, h'⟩ hb (rfl : h = h')
    have he := distinct ((r.mem_entries_iff a h).1 ha) ((r.mem_entries_iff b h).1 hb)
    rw [he]
  have hp : e.keys.Perm r.values := by
    refine (List.perm_ext_iff_of_nodup e.nodup_keys hv).2 fun h => ?_
    rw [e.mem_keys_iff, ← e.contains_iff, live, r.mem_values_iff]
  have hl := hp.length_eq
  rw [e.length_keys] at hl
  rw [hl, Table.values, List.length_map, Table.size]

end Registry

end Snapshots.Timer
