import Snapshots.Proofs.Service.Calls
import Snapshots.Proofs.Service.Lockstep
import Snapshots.Proofs.Timer.Shared

/-! # Entries are true to their tasks

The entry of a task holds the task as it was when it was registered. Every operation that changes a
task in more than the time of its last firing registers it anew or leaves it without an entry. The
timer may hold the entries of other services as well. Main statement: `Run.faithful`.
-/

namespace Snapshots

open Firing Timer Time

namespace Service

variable {φ σ : Type} [Fleet φ σ] {s s' : Service φ} {m : Moment}

/-! ### The task of an entry -/

abbrev slot? (s : Service φ) (id : String) : Option (Cron.Schedule × Job) :=
  s.handles.slot? s.engine id

/-- Every registered task is enabled and has an entry to itself that was made from the task as it
is. -/
structure Faithful (s : Service φ) : Prop where
  id_eq : ∀ {k t}, s.tasks.get? k = some t → t.id = k
  sound : s.handles.Sound s.engine
  serves : ∀ {k x}, s.slot? k = some x →
    ∃ t, s.tasks.get? k = some t ∧ t.enabled = true ∧ Serves s.owner t x

/-- One service comes from another by a change of one task and its entry. -/
structure ChangesTask (s : Service φ) (id : String) (x? : Option (Cron.Schedule × Job))
    (s' : Service φ) : Prop where
  owner_eq : s'.owner = s.owner
  tasks_other : ∀ {k}, k ≠ id → s'.tasks.get? k = s.tasks.get? k
  entry : Registry.Changes s.handles s.engine id x? s'.handles s'.engine

theorem ChangesTask.put {x? : Option (Cron.Schedule × Job)} {t : Task}
    (c : ChangesTask s t.id x? s') : ChangesTask s t.id x? (s'.put t) where
  owner_eq := c.owner_eq
  tasks_other hne := (Table.get?_insert ..).trans ((if_neg hne).trans (c.tasks_other hne))
  entry := c.entry

namespace Faithful

variable {id : String} {t : Task} {h : Handle} {e : RegisterError}

theorem blank (site : Site φ) (owner : Nat) (options : Options) :
    Faithful (Service.blank site owner options) :=
  ⟨nofun, .empty _, nofun⟩

theorem changes_unregister (f : Faithful s) (id : String) :
    ChangesTask s id none (s.unregister id) :=
  ⟨rfl, fun _ => rfl, f.sound.unregister id⟩

theorem changes_refused (f : Faithful s) (hr : s.register m t = (s', .error e)) :
    ChangesTask s t.id none s' ∧ s'.tasks = s.tasks := by
  obtain ⟨hr, hs⟩ := register_eq hr
  refine ⟨⟨?_, ?_, f.sound.register_error hr⟩, ?_⟩
  · rw [hs]
  · intro k _
    rw [hs]
  · rw [hs]

theorem changes_taken (f : Faithful s) (hr : s.register m t = (s', .ok h)) :
    ∃ x, Serves s.owner t x ∧ ChangesTask s t.id (some x) s' ∧ s'.tasks = s.tasks := by
  obtain ⟨hr, hs⟩ := register_eq hr
  obtain ⟨schedule, hp, hc⟩ := f.sound.register_ok hr
  refine ⟨(schedule, ⟨s.owner, t⟩), ⟨⟨m.now, hp⟩, rfl, rfl⟩, ⟨?_, ?_, hc⟩, ?_⟩
  · rw [hs]
  · intro k _
    rw [hs]
  · rw [hs]

theorem change (f : Faithful s) {x? : Option (Cron.Schedule × Job)} (c : ChangesTask s id x? s')
    (hid : ∀ {t}, s'.tasks.get? id = some t → t.id = id)
    (hserves : ∀ {x}, x? = some x →
      ∃ t, s'.tasks.get? id = some t ∧ t.enabled = true ∧ Serves s.owner t x) :
    Faithful s' := by
  refine ⟨fun {k t} ht => ?_, c.entry.sound, fun {k x} hx => ?_⟩
  · by_cases hk : k = id
    · rw [hk] at ht ⊢
      exact hid ht
    · rw [c.tasks_other hk] at ht
      exact f.id_eq ht
  · rw [c.owner_eq]
    by_cases hk : k = id
    · rw [hk] at hx ⊢
      exact hserves (c.entry.slot?_self.symm.trans hx)
    · rw [c.tasks_other hk]
      exact f.serves ((c.entry.slot?_other hk).symm.trans hx)

theorem id_put {t' : Task} (ht' : (s.put t).tasks.get? t.id = some t') : t'.id = t.id := by
  have hself : (s.put t).tasks.get? t.id = some t := Table.get?_insert_self ..
  rw [hself] at ht'
  rw [Option.some.inj ht']

theorem putWithout (f : Faithful s) (c : ChangesTask s t.id none s') : Faithful (s'.put t) :=
  f.change c.put id_put nofun

theorem refused (f : Faithful s) (hr : s.register m t = (s', .error e)) : Faithful s' := by
  obtain ⟨c, htasks⟩ := f.changes_refused hr
  refine f.change c (fun ht => ?_) nofun
  rw [htasks] at ht
  exact f.id_eq ht

theorem taken (f : Faithful s) (hr : s.register m t = (s', .ok h)) (he : t.enabled = true) :
    Faithful (s'.put t) := by
  obtain ⟨x, hx, c, -⟩ := f.changes_taken hr
  refine f.change c.put id_put fun hx' => ?_
  cases hx'
  exact ⟨t, Table.get?_insert_self .., he, hx⟩

theorem takenAgain (f : Faithful s) (hr : s.register m t = (s', .ok h)) (he : t.enabled = true)
    (ht : s.tasks.get? t.id = some t) : Faithful s' := by
  obtain ⟨x, hx, c, htasks⟩ := f.changes_taken hr
  rw [← htasks] at ht
  refine f.change c (fun ht' => ?_) fun hx' => ?_
  · rw [ht] at ht'
    rw [Option.some.inj ht']
  · cases hx'
    exact ⟨t, ht, he, hx⟩

theorem discard (f : Faithful s) (id : String) : Faithful (s.discard m id) := by
  have c : ChangesTask s id none (s.discard m id) :=
    ⟨rfl, fun hne => (Table.get?_erase ..).trans (if_neg hne), f.sound.unregister id⟩
  refine f.change c (fun ht => ?_) nofun
  have hgone : (s.discard m id).tasks.get? id = none := Table.get?_erase_self ..
  rw [hgone] at ht
  cases ht

theorem stamp (f : Faithful s) {firedAt : Time.Instant} {stamped : Task}
    (hs : s.stamp m id firedAt = some (s', stamped)) : Faithful s' := by
  obtain ⟨t, ht, hs⟩ := Option.map_eq_some_iff.1 hs
  cases hs
  have hid := f.id_eq ht
  have c : ChangesTask s id (s.slot? id)
      ((s.put { t with lastExecuted := some firedAt }).persist m) := by
    refine ⟨rfl, fun {k} hne => ?_, ⟨f.sound, rfl, fun _ => rfl⟩⟩
    exact (Table.get?_insert ..).trans (if_neg (hid ▸ hne))
  have hself : (s.put { t with lastExecuted := some firedAt }).tasks.get? id =
      some { t with lastExecuted := some firedAt } := by
    rw [← hid]
    exact Table.get?_insert_self ..
  refine f.change c (fun ht' => ?_) fun {x} hx => ⟨_, hself, ?_⟩
  · cases hself.symm.trans ht'
    exact hid
  · obtain ⟨t', ht', he, hserves⟩ := f.serves hx
    rw [ht] at ht'
    cases ht'
    exact ⟨he, hserves.stamp _⟩

/-! ### Deeds -/

theorem create (f : Faithful s) (d : Definition) (createdBy : String) :
    Faithful (s.create m d createdBy).1 := by
  rcases s.create_cases m d createdBy with
    ⟨e, -, hc, -⟩ | ⟨-, -, ⟨s', e, hr, hc, -⟩ | ⟨s', h, hr, hc, -⟩⟩
  · rw [hc]
    exact f
  · rw [hc]
    exact f.refused hr
  · have f' := f.taken hr rfl
    rw [hc]
    exact ⟨f'.id_eq, f'.sound, f'.serves⟩

theorem update (f : Faithful s) (id : String) (d : Definition) :
    Faithful (s.update m id d).1 := by
  rcases s.update_cases m id d with ⟨e, -, hu, -⟩ | ⟨previous, -, ht, ⟨he, hr⟩ | ⟨-, hu, -⟩⟩
  · rw [hu]
    exact f
  · rcases hr with ⟨s', e, hr, hu, -⟩ | ⟨s', h, hr, hu, -⟩
    · -- The timer refuses the new definition and is asked to take back the old one.
      rw [hu]
      have f' := f.refused hr
      have ht' : s'.tasks.get? previous.id = some previous := by
        rw [(f.changes_refused hr).2, f.id_eq ht]
        exact ht
      unfold reinstate
      split
      · rename_i hon
        rcases hr' : s'.register m previous with ⟨s'', e' | h⟩
        · exact f'.refused hr'
        · exact f'.takenAgain hr' hon ht'
      · exact f'
    · have f' := f.taken hr he
      rw [hu]
      exact ⟨f'.id_eq, f'.sound, f'.serves⟩
  · rw [hu, ← f.id_eq ht]
    have f' := f.putWithout (t := previous.apply d m.now) (f.changes_unregister previous.id)
    exact ⟨f'.id_eq, f'.sound, f'.serves⟩

theorem toggle (f : Faithful s) (id : String) : Faithful (s.toggle m id).1 := by
  rcases s.toggle_cases m id with ⟨-, hs, -⟩ | ⟨previous, ht, ⟨hoff, hr⟩ | ⟨-, hs, -⟩⟩
  · rw [hs]
    exact f
  · rcases hr with ⟨s', e, hr, hs, -⟩ | ⟨s', h, hr, hs, -⟩
    · rw [hs]
      exact f.refused hr
    · have f' := f.taken hr (by simp [toggled, hoff])
      rw [hs]
      exact ⟨f'.id_eq, f'.sound, f'.serves⟩
  · rw [hs, ← f.id_eq ht]
    have f' := f.putWithout (t := toggled m previous) (f.changes_unregister previous.id)
    exact ⟨f'.id_eq, f'.sound, f'.serves⟩

theorem perform (f : Faithful s) (d : Deed φ) : Faithful (s.perform m d) := by
  cases d with
  | create d createdBy => exact f.create d createdBy
  | update id d => exact f.update id d
  | toggle id => exact f.toggle id
  | delete id =>
    change Faithful (s.delete m id).1
    unfold Service.delete
    split
    · have f' := f.discard (m := m) id
      exact ⟨f'.id_eq, f'.sound, f'.serves⟩
    · exact f
  | run id =>
    change Faithful (s.run m id).1
    unfold Service.run
    split
    · exact f
    · exact f.stamp ‹_›
  | fire job =>
    change Faithful (s.runJob m job).1
    unfold Service.runJob
    split
    · exact f
    · exact f.stamp ‹_›
  | work fleet history => exact ⟨f.id_eq, f.sound, f.serves⟩

theorem restore (f : Faithful s) (t : Task) : Faithful (Service.restore m s t) := by
  unfold Service.restore
  split
  · exact f
  · rename_i hc
    have hnew : s.tasks.get? t.id = none := by simpa [Table.contains] using hc
    split
    · rename_i he
      rcases hr : s.register m t with ⟨s', e | h⟩
      · exact f.putWithout (f.changes_refused hr).1
      · exact f.taken hr he
    · refine f.putWithout ⟨rfl, fun _ => rfl, f.sound, ?_, fun _ => rfl⟩
      -- A task that is not there has no entry either.
      by_contra hne
      obtain ⟨x, hx⟩ := Option.ne_none_iff_exists'.1 hne
      obtain ⟨t', ht', -⟩ := f.serves hx
      rw [hnew] at ht'
      cases ht'

end Faithful

/-- In every state of a run, whatever the timer held before, every registered task is enabled and
has an entry that was made from the task as it is. -/
theorem Run.faithful {site : Site φ} {owner : Nat} {options : Options} {ts : List Task}
    {as : List Answer} (r : Run site owner options ts as s) : Faithful s := by
  induction r with
  | load => exact .blank site owner options
  | restore m _ ih => exact ih.restore _
  | turn t _ ih =>
    exact ⟨ih.id_eq, ih.sound.turn t, fun hx => ih.serves ((Registry.slot?_turn ..).symm.trans hx)⟩
  | perform m d _ ih => exact ih.perform d

end Service

end Snapshots
