import Snapshots.Proofs.Cron.Fields
import Snapshots.Proofs.Service.Refused
import Snapshots.Proofs.Task.Order

/-! # Which definitions become tasks

The expression of a definition is read when the definition is validated and once more by the timer,
and the time at which the new task is due is found apart from both. All agree: what validation takes
the timer does not refuse for its expression, and the task is due some time after its creation.
Main statement: `Run.create_accepts`.
-/

namespace Snapshots.Service

open Cron Timer Time

variable {φ σ : Type} [Fleet φ σ] {s s' : Service φ} {m : Moment} {d : Definition}
  {createdBy : String}

/-- What a definition and a service must be like for a task to be created. -/
structure Acceptable (s : Service φ) (m : Moment) (d : Definition) (createdBy : String) :
    Prop where
  complete : d.Complete
  schedule : ∃ schedule, Schedule.parse m.now d.cron = .ok schedule
  targets : ¬ (s.options.policy = .reject ∧ d.targets ≠ [] ∧ Fleet.routes s.fleet = false)
  new : ∀ t ∈ s.tasks.values, t.id ≠ Task.makeId d.ns d.name m.now
  available : ∀ reason,
    (s.engine.register m.now d.cron (s.jobOf (.ofDefinition d createdBy m.now))).2 ≠
      .error (.unavailable reason)

omit [Fleet φ σ] in
theorem register_unregistered {t : Task} (hnone : s.handles.get? t.id = none) :
    (s.register m t).2 = (s.engine.register m.now t.cron (s.jobOf t)).2 := by
  simp only [register, Registry.register_of_none hnone]
  split
  · rename_i h
    rw [h]
  · rename_i h
    rw [h]

omit [Fleet φ σ] in
theorem unavailable_of_register_error {t : Task} {e : RegisterError} {schedule : Schedule}
    (hr : s.register m t = (s', .error e)) (hp : Schedule.parse m.now t.cron = .ok schedule) :
    ∃ reason, e = .unavailable reason := by
  rcases Registry.register_error_cases (register_eq hr).1 with h | ⟨error, herror, -⟩
  · exact h
  · rw [hp] at herror
    cases herror

omit [Fleet φ σ] in
theorem Faithful.get?_eq_none_iff (f : Faithful s) {id : String} :
    s.tasks.get? id = none ↔ ∀ t ∈ s.tasks.values, t.id ≠ id := by
  constructor
  · rintro hnone t ht rfl
    obtain ⟨k, hk⟩ := (s.tasks.mem_values_iff t).1 ht
    rw [f.id_eq hk, hk] at hnone
    cases hnone
  · intro hother
    by_contra hne
    obtain ⟨t, ht⟩ := Option.ne_none_iff_exists'.1 hne
    exact hother t ((s.tasks.mem_values_iff t).2 ⟨_, ht⟩) (f.id_eq ht)

theorem create_isOk_iff : (∃ t, (s.create m d createdBy).2 = .ok t) ↔
    s.validate m d = .ok () ∧ s.tasks.get? (Task.ofDefinition d createdBy m.now).id = none ∧
      ∃ k, (s.register m (.ofDefinition d createdBy m.now)).2 = .ok k := by
  unfold create
  cases s.validate m d with
  | error e => simp
  | ok _ =>
    simp only [true_and]
    split
    · rename_i hc
      obtain ⟨t, ht⟩ := (Table.contains_iff ..).1 hc
      simp [ht]
    · rename_i hc
      have hnone : s.tasks.get? (Task.ofDefinition d createdBy m.now).id = none := by
        simpa [Table.contains] using hc
      rcases s.register m (.ofDefinition d createdBy m.now) with ⟨s', e | k⟩
      · simp
      · simp [hnone, commit]

theorem create_not_rejected (s : Service φ) (m : Moment) (d : Definition) (createdBy : String)
    (e : ScheduleError) : (s.create m d createdBy).2 ≠ .error (.scheduling (.rejected e)) := by
  intro h
  rcases s.create_cases m d createdBy with
    ⟨f, hf, hc, -⟩ | ⟨hv, -, ⟨s', f, hr, hc, -⟩ | ⟨s', k, -, hc, -⟩⟩
  · rw [hc] at h
    exact hf _ (Except.error.inj h)
  · rw [hc] at h
    cases h
    obtain ⟨schedule, hp⟩ := (validate_eq_ok_iff.1 hv).2.1
    obtain ⟨reason, hreason⟩ := unavailable_of_register_error hr hp
    cases hreason
  · rw [hc] at h
    cases h

theorem Faithful.create_isOk_iff (f : Faithful s) :
    (∃ t, (s.create m d createdBy).2 = .ok t) ↔ s.Acceptable m d createdBy := by
  rw [Service.create_isOk_iff, validate_eq_ok_iff]
  -- The new task has no entry yet, so the timer is asked for one at once.
  have hanswer (hnone : s.tasks.get? (Task.ofDefinition d createdBy m.now).id = none) :
      (s.register m (.ofDefinition d createdBy m.now)).2 =
        (s.engine.register m.now d.cron (s.jobOf (.ofDefinition d createdBy m.now))).2 := by
    apply register_unregistered
    apply f.unregistered
    intro t ht
    rw [hnone] at ht
    cases ht
  constructor
  · rintro ⟨⟨hcomplete, hschedule, htargets⟩, hnone, k, hk⟩
    refine ⟨hcomplete, hschedule, htargets, f.get?_eq_none_iff.1 hnone, fun reason h => ?_⟩
    rw [hanswer hnone, h] at hk
    cases hk
  · rintro ⟨hcomplete, ⟨schedule, hp⟩, htargets, hnew, havailable⟩
    have hnone := f.get?_eq_none_iff.2 hnew
    refine ⟨⟨hcomplete, ⟨schedule, hp⟩, htargets⟩, hnone, ?_⟩
    rcases hr : s.register m (.ofDefinition d createdBy m.now) with ⟨s', e | k⟩
    · obtain ⟨reason, rfl⟩ := unavailable_of_register_error hr hp
      have h := hanswer hnone
      rw [hr] at h
      exact absurd h.symm (havailable reason)
    · exact ⟨k, rfl⟩

/-- What a task that was created is like. -/
structure Welcomed (s : Service φ) (t : Task) : Prop where
  enabled : t.enabled = true
  registered : ∃ k, s.handles.get? t.id = some k ∧ s.engine.contains k = true
  listed : t ∈ s.list

theorem create_eq_ok {t : Task} (h : s.create m d createdBy = (s', .ok t)) :
    ∃ s₁ k, s.register m (.ofDefinition d createdBy m.now) = (s₁, .ok k) ∧
      s' = (s₁.commit m (.ofDefinition d createdBy m.now)).1 ∧
      t = s₁.view (.ofDefinition d createdBy m.now) := by
  rcases s.create_cases m d createdBy with
    ⟨f, -, hc, -⟩ | ⟨-, -, ⟨s₁, f, -, hc, -⟩ | ⟨s₁, k, hr, hc, -⟩⟩
  · rw [hc] at h
    cases h
  · rw [hc] at h
    cases h
  · rw [hc] at h
    cases h
    exact ⟨s₁, k, hr, rfl, rfl⟩

theorem welcomed_of_create {t : Task} (h : s.create m d createdBy = (s', .ok t)) :
    s'.Welcomed t := by
  obtain ⟨s₁, k, hr, rfl, rfl⟩ := create_eq_ok h
  obtain ⟨schedule, -, -, -, hhandles, hlookup⟩ := Registry.register_ok (register_eq hr).1
  constructor
  · rfl
  · refine ⟨k, (hhandles _).trans (if_pos rfl), ?_⟩
    rw [Engine.contains_iff]
    exact ⟨_, (hlookup k).trans (if_pos rfl)⟩
  · apply (Task.sorted_perm _).mem_iff.2
    apply List.mem_map_of_mem
    exact (Table.mem_values_iff ..).2 ⟨_, Table.get?_insert_self ..⟩

/-- A new task is due some time after its creation, if its timer has no other clock. -/
theorem due_of_create {t : Task} (h : s.create m d createdBy = (s', .ok t))
    (hclock : ∀ clock, s.engine.clock? = some clock → clock = m.now) :
    ∃ next, t.nextExecution = some next ∧ t.createdAt < next := by
  obtain ⟨s₁, k, hr, rfl, rfl⟩ := create_eq_ok h
  obtain ⟨schedule, hp, hnext⟩ := Registry.next?_register (register_eq hr).1 hclock
  -- A schedule that never fires again is not read as one.
  obtain ⟨-, -, -, hsome⟩ := Schedule.parse_eq_ok_iff.1 hp
  obtain ⟨next, hdue⟩ := Option.isSome_iff_exists.1 hsome
  obtain ⟨-, hlater, -⟩ := (Schedule.ordered_of_parse hp).next?_eq_some hdue
  exact ⟨next, hnext.trans hdue, hlater⟩

/-- Whatever a run comes to, a definition becomes a task exactly if it is complete, has a schedule,
names no clusters where that is rejected, and gives an identity that no task has, and the timer can
take an entry. A timer never refuses the expression of a definition that was found valid. A new task
is enabled, registered and listed. It is due some time after its creation, if the timer goes by the
clock of the service or is a timer moved by hand that shows the same time. -/
theorem Run.create_accepts {site : Site φ} {owner : Nat} {options : Options} {as : List Answer}
    (r : Run site owner options [] as s) (m : Moment) (d : Definition) (createdBy : String) :
    ((∃ t, (s.create m d createdBy).2 = .ok t) ↔ s.Acceptable m d createdBy) ∧
      (∀ e, (s.create m d createdBy).2 ≠ .error (.scheduling (.rejected e))) ∧
      ∀ s' t, s.create m d createdBy = (s', .ok t) → s'.Welcomed t ∧
        ((∀ clock, s.engine.clock? = some clock → clock = m.now) →
          ∃ next, t.nextExecution = some next ∧ t.createdAt < next) := by
  refine ⟨r.faithful.create_isOk_iff, s.create_not_rejected m d createdBy, fun s' t h => ?_⟩
  exact ⟨welcomed_of_create h, due_of_create h⟩

end Snapshots.Service

namespace Snapshots

/-- A definition is accepted, and not a second time at the same moment. -/
theorem Service.Run.create_accepts_once :
    ∃ (s s' : Service Cluster.Memory) (t : Task), Service.Run Sample.site 0 Sample.options [] [] s ∧
      s.Acceptable Sample.moment Sample.definition "alice" ∧
      s.create Sample.moment Sample.definition "alice" = (s', .ok t) ∧ s'.Welcomed t ∧
      (∃ next, t.nextExecution = some next ∧ t.createdAt < next) ∧
      ¬ s'.Acceptable Sample.moment Sample.definition "alice" := by
  let s := Service.blank Sample.site 0 Sample.options
  have r : Service.Run Sample.site 0 Sample.options [] [] s := by
    have hload : Store.load Sample.site.files Sample.options.path = [] := by decide +kernel
    have r : Service.Run Sample.site 0 Sample.options _ [] s := .load
    rwa [hload] at r
  obtain ⟨haccepted, -, hnew⟩ :=
    Service.Run.create_accepts r Sample.moment Sample.definition "alice"
  obtain ⟨hagain, -⟩ :=
    Service.Run.create_accepts Sample.run_created Sample.moment Sample.definition "alice"
  have hok : (s.create Sample.moment Sample.definition "alice").2.isOk = true := by decide +kernel
  have hexists : (Sample.created.create Sample.moment Sample.definition "alice").2 =
      .error (.alreadyExists Sample.id) := by
    decide +kernel
  rcases hc : s.create Sample.moment Sample.definition "alice" with ⟨s', e | t⟩
  · rw [hc] at hok
    cases hok
  · obtain ⟨hwelcomed, hdue⟩ := hnew s' t hc
    have hs' : s' = Sample.created := by
      rw [Sample.created, Service.perform, hc]
    refine ⟨s, s', t, r, haccepted.1 ⟨t, by rw [hc]⟩, hc, hwelcomed, hdue ?_, ?_⟩
    · intro clock hclock
      exact (Option.some.inj hclock).symm
    · intro h
      rw [hs'] at h
      obtain ⟨t', ht'⟩ := hagain.2 h
      rw [hexists] at ht'
      cases ht'

end Snapshots
