import Snapshots.Proofs.Service.Lockstep
import Snapshots.Proofs.Table

/-! # Rollback of an update

An update that the timer refuses leaves the tasks, the file and the history alone. The timer is
asked to take back the old definition, and may refuse that too.
-/

namespace Snapshots.Service

open Cron Timer

variable {φ σ : Type} [Fleet φ σ] {as as' : List Answer} {s s' : Service φ} {m : Moment}
  {id : String} {d : Definition} {e : RegisterError}

/-- What callers can observe of two services is the same. -/
structure SameView (s s' : Service φ) : Prop where
  list_eq : s'.list = s.list
  get_eq : ∀ k, s'.get k = s.get k
  contains_eq : ∀ k, s'.handles.contains k = s.handles.contains k
  size_eq : s'.engine.size = s.engine.size
  files_eq : s'.files = s.files
  history_eq : s'.history = s.history

theorem parse_of_validate (h : s.validate m d = .ok ()) :
    ∃ schedule, Schedule.parse m.now d.cron = .ok schedule :=
  (validate_eq_ok_iff.1 h).2.1

@[simp] theorem clock?_register (s : Service φ) (m : Moment) (t : Task) :
    (s.register m t).1.engine.clock? = s.engine.clock? :=
  Registry.clock?_register ..

theorem refused_update (hu : s.update m id d = (s', .error (.scheduling e))) :
    ∃ previous s₁, s.validate m d = .ok () ∧ s.tasks.get? id = some previous ∧
      s.register m (previous.apply d m.now) = (s₁, .error e) ∧
      s' = s₁.reinstate m previous ∧
      s.updateAnswers m id d =
        .error e :: if previous.enabled then [(s₁.register m previous).2] else [] := by
  rcases s.update_cases m id d with
    ⟨f, hf, hu', -⟩ |
      ⟨previous, hv, ht, ⟨-, ⟨s₁, f, hr, hu', ha⟩ | ⟨s₁, h, -, hu', -⟩⟩ | ⟨-, hu', -⟩⟩
  · rw [hu] at hu'
    cases hu'
    exact absurd rfl (hf e)
  · rw [hu] at hu'
    cases hu'
    exact ⟨previous, s₁, hv, ht, hr, rfl, ha⟩
  · rw [hu] at hu'
    cases hu'
  · rw [hu] at hu'
    cases hu'

theorem clock?_of_refused_update (hu : s.update m id d = (s', .error (.scheduling e))) :
    ∃ now, s.engine.clock? = some now ∧ s'.engine.clock? = some now := by
  obtain ⟨previous, s₁, hv, -, hr, rfl, -⟩ := refused_update hu
  obtain ⟨schedule, hp⟩ := parse_of_validate hv
  obtain ⟨now, hc⟩ := Registry.clock?_of_register_error (x := (previous.apply d m.now).cron) hp
    (register_eq hr).1
  have hc₁ : s₁.engine.clock? = some now := by
    rw [← hc, ← s.clock?_register m (previous.apply d m.now), hr]
  refine ⟨now, hc, ?_⟩
  unfold reinstate
  split
  · rw [clock?_register, hc₁]
  · exact hc₁

theorem register_frame {t : Task} {r : Answer} (hr : s.register m t = (s', r)) :
    s'.tasks = s.tasks ∧ s'.files = s.files ∧ s'.history = s.history ∧ s'.fleet = s.fleet ∧
      s'.owner = s.owner ∧ (∀ k, k ≠ t.id → s'.handles.get? k = s.handles.get? k) ∧
      (s'.handles.contains t.id = true ↔ ∃ h, r = .ok h) := by
  obtain ⟨hr, hs⟩ := register_eq hr
  refine ⟨by rw [hs], by rw [hs], by rw [hs], by rw [hs], by rw [hs], ?_, ?_⟩
  · intro k hk
    cases r with
    | error f => rw [(Registry.register_error hr).1, if_neg hk]
    | ok h =>
      obtain ⟨_, -, -, -, hg, -⟩ := Registry.register_ok hr
      rw [hg, if_neg hk]
  · rw [Table.contains_iff]
    cases r with
    | error f => simp [(Registry.register_error hr).1]
    | ok h =>
      obtain ⟨_, -, -, -, hg, -⟩ := Registry.register_ok hr
      simp [hg]

theorem refused_update_frame (l : s.InLockstep as)
    (hu : s.update m id d = (s', .error (.scheduling e))) :
    s'.tasks = s.tasks ∧ s'.files = s.files ∧ s'.history = s.history ∧ s'.fleet = s.fleet ∧
      (∀ k, k ≠ id → s'.handles.get? k = s.handles.get? k) ∧
      (s'.handles.contains id = true ↔ ∃ h, s.updateAnswers m id d = [.error e, .ok h]) := by
  obtain ⟨previous, s₁, -, ht, hr, rfl, ha⟩ := refused_update hu
  have hid : previous.id = id := l.id_eq ht
  subst hid
  obtain ⟨ht₁, hf₁, hh₁, hφ₁, -, hk₁, hc₁⟩ := register_frame hr
  have hnone : ¬ s₁.handles.contains previous.id = true := by
    intro hn
    obtain ⟨h, hn⟩ := hc₁.1 hn
    cases hn
  rw [ha]
  unfold reinstate
  cases hp : previous.enabled with
  | false => exact ⟨ht₁, hf₁, hh₁, hφ₁, hk₁, by simpa using hnone⟩
  | true =>
    rcases hr' : s₁.register m previous with ⟨s₂, r⟩
    obtain ⟨ht₂, hf₂, hh₂, hφ₂, -, hk₂, hc₂⟩ := register_frame hr'
    refine ⟨ht₂.trans ht₁, hf₂.trans hf₁, hh₂.trans hh₁, hφ₂.trans hφ₁, ?_, by simpa using hc₂⟩
    exact fun k hk => (hk₂ k hk).trans (hk₁ k hk)

/-- Two services with the same tasks and clock show the same due time for a task that both or
neither have registered, whatever its handles are. -/
theorem next?_eq_of_contains_eq {now : Time.Instant} (l : s.InLockstep as)
    (l' : s'.InLockstep as') (ht : s'.tasks = s.tasks) (hc : s.engine.clock? = some now)
    (hc' : s'.engine.clock? = some now) {k : String}
    (hk : s'.handles.contains k = s.handles.contains k) :
    s'.handles.next? s'.engine k = s.handles.next? s.engine k := by
  simp only [Registry.next?, Table.contains] at hk ⊢
  cases hh : s.handles.get? k with
  | none =>
    cases hh' : s'.handles.get? k with
    | none => rfl
    | some h' => simp [hh, hh'] at hk
  | some h =>
    cases hh' : s'.handles.get? k with
    | none => simp [hh, hh'] at hk
    | some h' =>
      obtain ⟨t, entry, hget, -, hl, ⟨_, hp⟩, -, -⟩ := l.registered hh
      obtain ⟨t', entry', hget', -, hl', ⟨_, hp'⟩, -, -⟩ := l'.registered hh'
      rw [ht, hget] at hget'
      cases hget'
      simp [Engine.next?_eq hc, Engine.next?_eq hc', hl, hl', Schedule.parse_unique hp hp']

theorem sameView_of_contains_eq (l : s.InLockstep as) (l' : s'.InLockstep as')
    (hu : s.update m id d = (s', .error (.scheduling e)))
    (hid : s'.handles.contains id = s.handles.contains id) : SameView s s' := by
  obtain ⟨ht, hf, hh, -, hk, -⟩ := refused_update_frame l hu
  obtain ⟨now, hc, hc'⟩ := clock?_of_refused_update hu
  have hcontains : ∀ k, s'.handles.contains k = s.handles.contains k := by
    intro k
    by_cases hkid : k = id
    · rw [hkid, hid]
    · rw [Table.contains, Table.contains, hk k hkid]
  have hview : s'.view = s.view := by
    funext t
    rw [view, view, next?_eq_of_contains_eq l l' ht hc hc' (hcontains t.id)]
  constructor
  · rw [list, list, ht, hview]
  · intro k
    rw [get, get, find, find, ht, hview]
  · exact hcontains
  · rw [Lockstep.size_eq l, Lockstep.size_eq l']
    exact Table.size_eq_of_contains_eq hcontains
  · exact hf
  · exact hh

/-- After an update that the timer refuses, the tasks, the file, the history, the clusters and the
entries of other tasks are as they were. The task is registered with its prior definition if the
timer takes that back, and is not registered otherwise. Callers see no difference exactly if the
task is registered after the update as it was or was not before, and so whenever it is disabled. -/
theorem Run.refused_update_rolls_back {site : Site φ} {owner : Nat} {options : Options}
    (hsite : site.engine.size = 0) (r : Run site owner options [] as s)
    (hu : s.update m id d = (s', .error (.scheduling e))) :
    ∃ previous, s.tasks.get? id = some previous ∧
      (s'.tasks = s.tasks ∧ s'.files = s.files ∧ s'.history = s.history ∧ s'.fleet = s.fleet) ∧
      (∀ k, k ≠ id → s'.handles.get? k = s.handles.get? k) ∧
      (s'.handles.contains id = true ↔ ∃ h, s.updateAnswers m id d = [.error e, .ok h]) ∧
      (∀ h, s'.handles.get? id = some h → ∃ entry, s'.engine.lookup h = some entry ∧
        Serves s'.owner previous entry) ∧
      (SameView s s' ↔ s'.handles.contains id = s.handles.contains id) ∧
      (previous.enabled = false → SameView s s') := by
  have l := r.inLockstep hsite
  have l' : s'.InLockstep (as ++ s.updateAnswers m id d) := by
    have h := l.update (m := m) id d
    rw [hu] at h
    exact h
  obtain ⟨previous, s₁, -, hprev, -, -, ha⟩ := refused_update hu
  obtain ⟨ht, hf, hh, hφ, hk, hc⟩ := refused_update_frame l hu
  refine ⟨previous, hprev, ⟨ht, hf, hh, hφ⟩, hk, hc, ?_, ⟨?_, ?_⟩, ?_⟩
  · intro h hget
    obtain ⟨t, entry, hget, -, hl, hs⟩ := l'.registered hget
    rw [ht, hprev] at hget
    cases hget
    exact ⟨entry, hl, hs⟩
  · exact fun v => v.contains_eq id
  · exact sameView_of_contains_eq l l' hu
  · -- A disabled task had no entry, and the timer is not asked to take it back.
    intro hoff
    apply sameView_of_contains_eq l l' hu
    have hafter : s'.handles.contains id = false := by
      rw [Bool.eq_false_iff, ne_eq, hc, ha, hoff]
      simp
    have hbefore : s.handles.contains id = false := by
      rw [Bool.eq_false_iff, ne_eq, Table.contains_iff]
      rintro ⟨h, hget⟩
      obtain ⟨t, _, hget, hon, -⟩ := l.registered hget
      rw [hprev] at hget
      cases hget
      rw [hoff] at hon
      cases hon
    rw [hafter, hbefore]

/-- The timer refuses one registration: the task keeps its schedule under a new handle. -/
theorem Run.refused_update_rolls_back_sample :
    Sample.site.engine.size = 0 ∧
      Run Sample.site 0 Sample.options [] [.ok ⟨1⟩] (Sample.refusing 1) ∧
      (∃ f, (Sample.refusing 1).update Sample.moment Sample.id Sample.slower =
        (Sample.updated 1, .error (.scheduling f))) ∧
      SameView (Sample.refusing 1) (Sample.updated 1) := by
  have r := Sample.run_refusing 1
  have hu : (Sample.refusing 1).update Sample.moment Sample.id Sample.slower =
      (Sample.updated 1, .error (.scheduling (.unavailable "injected registration failure"))) :=
    Sample.update_eq (by decide +kernel)
  have hk : (Sample.updated 1).handles.contains Sample.id =
      (Sample.refusing 1).handles.contains Sample.id := by decide +kernel
  obtain ⟨previous, -, -, -, -, -, hsame, -⟩ := Run.refused_update_rolls_back rfl r hu
  exact ⟨rfl, r, ⟨_, hu⟩, hsame.2 hk⟩

/-- The timer refuses two registrations: the task loses its entry, and callers see that. -/
theorem Run.refused_update_loses_entry :
    Sample.site.engine.size = 0 ∧
      Run Sample.site 0 Sample.options [] [.ok ⟨1⟩] (Sample.refusing 2) ∧
      (∃ f, (Sample.refusing 2).update Sample.moment Sample.id Sample.slower =
        (Sample.updated 2, .error (.scheduling f))) ∧
      (Sample.refusing 2).handles.contains Sample.id = true ∧
      (Sample.updated 2).handles.contains Sample.id = false ∧
      ¬ SameView (Sample.refusing 2) (Sample.updated 2) := by
  have hu : (Sample.refusing 2).update Sample.moment Sample.id Sample.slower =
      (Sample.updated 2, .error (.scheduling (.unavailable "injected registration failure"))) :=
    Sample.update_eq (by decide +kernel)
  have hbefore : (Sample.refusing 2).handles.contains Sample.id = true := by decide +kernel
  have hafter : (Sample.updated 2).handles.contains Sample.id = false := by decide +kernel
  refine ⟨rfl, Sample.run_refusing 2, ⟨_, hu⟩, hbefore, hafter, ?_⟩
  intro v
  have hk := v.contains_eq Sample.id
  rw [hbefore, hafter] at hk
  cases hk

end Snapshots.Service
