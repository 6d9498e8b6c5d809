import Snapshots.Proofs.Service.Faithful

/-! # Calls that are refused

A registration begins by removing the entry that its task has. When a creation or a toggle is
refused there was none: a task that is not there or is disabled is not registered. So calls that are
refused change nothing, but that a timer moved by hand counts the failures that were asked of it.
Main statement: `Run.refused_call`.
-/

namespace Snapshots

open Timer Time

namespace Timer

variable {ι : Type} {e e' : Engine ι} {wall : Instant} {x : String} {job : ι} {f : RegisterError}

namespace Engine

/-- The engine with so many of the next registrations to fail, if it is moved by hand. -/
def withFailures (n : Nat) : Engine ι → Engine ι
  | manual m => manual { m with failures := n }
  | looping l => looping l

@[simp] theorem lookup_withFailures (e : Engine ι) (n : Nat) (h : Handle) :
    (e.withFailures n).lookup h = e.lookup h := by
  cases e <;> rfl

@[simp] theorem next?_withFailures (e : Engine ι) (n : Nat) (h : Handle) :
    (e.withFailures n).next? h = e.next? h := by
  cases e <;> rfl

theorem exists_withFailures (e : Engine ι) : ∃ n, e.withFailures n = e := by
  cases e with
  | manual m => exact ⟨m.failures, rfl⟩
  | looping l => exact ⟨0, rfl⟩

theorem eq_withFailures (h : e.register wall x job = (e', .error f)) :
    ∃ n, e' = e.withFailures n := by
  cases e with
  | manual m =>
    simp only [register, Manual.register] at h
    split at h
    · cases h
      exact ⟨m.failures, rfl⟩
    · split at h
      · cases h
        exact ⟨m.failures - 1, rfl⟩
      · split at h <;> cases h
        exact ⟨m.failures, rfl⟩
  | looping l =>
    simp only [register] at h
    rcases hl : l.register wall x job with ⟨l', r⟩
    rw [hl] at h
    cases h
    exact ⟨0, by rw [Loop.register_error hl]; rfl⟩

end Engine

theorem Registry.eq_withFailures {r r' : Registry} {id : String} (hid : r.get? id = none)
    (h : r.register e wall id x job = (r', e', .error f)) :
    r' = r ∧ ∃ n, e' = e.withFailures n := by
  rw [Registry.register_of_none hid] at h
  split at h
  · cases h
  · rename_i he
    cases h
    exact ⟨rfl, Engine.eq_withFailures he⟩

end Timer

namespace Service

variable {φ σ : Type} [Fleet φ σ] {s s' : Service φ} {m : Moment}

/-- The service with so many of the next registrations to fail, if its timer is moved by hand. -/
def withFailures (s : Service φ) (n : Nat) : Service φ :=
  { s with engine := s.engine.withFailures n }

theorem exists_withFailures (s : Service φ) : ∃ n, s = s.withFailures n := by
  obtain ⟨n, hn⟩ := s.engine.exists_withFailures
  exact ⟨n, by rw [withFailures, hn]⟩

namespace Faithful

variable {id : String} {h : Handle}

theorem enabled_of_registered (f : Faithful s) (hid : s.handles.get? id = some h) :
    ∃ t, s.tasks.get? id = some t ∧ t.enabled = true := by
  obtain ⟨x, hx⟩ := f.sound.live hid
  have hslot : s.slot? id = some x := by
    rw [slot?, Registry.slot?, hid]
    exact hx
  obtain ⟨t, ht, he, -⟩ := f.serves hslot
  exact ⟨t, ht, he⟩

theorem unregistered (f : Faithful s)
    (hid : ∀ t, s.tasks.get? id = some t → t.enabled = false) : s.handles.get? id = none := by
  by_contra hne
  obtain ⟨h, hh⟩ := Option.ne_none_iff_exists'.1 hne
  obtain ⟨t, ht, he⟩ := f.enabled_of_registered hh
  rw [hid t ht] at he
  cases he

theorem eq_withFailures (f : Faithful s) {t : Task} {e : RegisterError}
    (hid : ∀ t', s.tasks.get? t.id = some t' → t'.enabled = false)
    (hr : s.register m t = (s', .error e)) : ∃ n, s' = s.withFailures n := by
  obtain ⟨hr, hs⟩ := register_eq hr
  obtain ⟨hh, n, he⟩ := Registry.eq_withFailures (f.unregistered hid) hr
  refine ⟨n, ?_⟩
  rw [hs, hh, he, withFailures]

end Faithful

theorem Faithful.refused_create (f : Faithful s) {d : Definition} {createdBy : String}
    {e : TaskError} (h : (s.create m d createdBy).2 = .error e) :
    ∃ n, (s.create m d createdBy).1 = s.withFailures n := by
  rcases s.create_cases m d createdBy with
    ⟨_, -, hc, -⟩ | ⟨-, hnew, ⟨s', _, hr, hc, -⟩ | ⟨s', _, -, hc, -⟩⟩
  · rw [hc]
    exact s.exists_withFailures
  · rw [hc]
    refine f.eq_withFailures (fun t ht => ?_) hr
    rw [hnew] at ht
    cases ht
  · rw [hc] at h
    cases h

theorem Faithful.refused_toggle (f : Faithful s) {id : String} {e : TaskError}
    (h : (s.toggle m id).2 = .error e) : ∃ n, (s.toggle m id).1 = s.withFailures n := by
  rcases s.toggle_cases m id with ⟨-, hs, -⟩ | ⟨previous, ht, ⟨hoff, hr⟩ | ⟨-, hs, -⟩⟩
  · rw [hs]
    exact s.exists_withFailures
  · rcases hr with ⟨s', _, hr, hs, -⟩ | ⟨s', _, -, hs, -⟩
    · rw [hs]
      refine f.eq_withFailures (fun t' ht' => ?_) hr
      -- The toggle keeps the identity of the task, which is disabled as it stands.
      have hid : (toggled m previous).id = id := (f.id_eq ht : previous.id = id)
      rw [hid, ht] at ht'
      cases ht'
      exact hoff
    · rw [hs] at h
      cases h
  · rw [hs] at h
    cases h

theorem refused_update_eq {id : String} {d : Definition} {e : TaskError}
    (h : (s.update m id d).2 = .error e) (he : ∀ f, e ≠ .scheduling f) :
    (s.update m id d).1 = s := by
  rcases s.update_cases m id d with
    ⟨_, -, hu, -⟩ | ⟨previous, -, -, ⟨-, ⟨s', f, -, hu, -⟩ | ⟨s', _, -, hu, -⟩⟩ | ⟨-, hu, -⟩⟩
  · rw [hu]
  · rw [hu] at h
    exact absurd (Except.error.inj h).symm (he f)
  · rw [hu] at h
    cases h
  · rw [hu] at h
    cases h

theorem Reply.ofTask_eq_error {r : Except TaskError Task} {e : TaskError}
    (h : Reply.ofTask r = .error e) : r = .error e := by
  cases r with
  | ok t => cases h
  | error _ =>
    cases h
    rfl

theorem refused_delete_eq {id : String} {e : TaskError}
    (h : (s.call m (.delete id)).2 = .error e) : (s.call m (.delete id)).1 = s := by
  simp only [call, delete] at h ⊢
  split at h
  · cases h
  · rename_i hid
    rw [if_neg hid]

theorem refused_run_eq {id : String} {works : List (Work φ)} {finishedAt : Instant} {e : TaskError}
    (h : (s.call m (.run id works finishedAt)).2 = .error e) :
    (s.call m (.run id works finishedAt)).1 = s := by
  cases hstamp : s.stamp m id m.now with
  | none => simp only [call, run, hstamp]
  | some p =>
    simp only [call, run, hstamp] at h
    split at h <;> cases h

/-- Whatever a run comes to, and whatever registrations its timer refuses: a call that is refused,
but for an update that the timer refuses, leaves the service as it was, with its tasks, registry,
files, clusters and history, and with the same entries and due times in the timer. Only a timer
moved by hand has counted the failure. -/
theorem Run.refused_call {site : Site φ} {owner : Nat} {options : Options} {as : List Answer}
    (r : Run site owner options [] as s) {c : Call φ} {e : TaskError}
    (h : (s.call m c).2 = .error e) (hu : ∀ id d f, c = .update id d → e ≠ .scheduling f) :
    (∃ n, (s.call m c).1 = s.withFailures n) ∧
      ∀ k, (s.call m c).1.engine.lookup k = s.engine.lookup k ∧
        (s.call m c).1.engine.next? k = s.engine.next? k := by
  have hsame : (s.call m c).1 = s → ∃ n, (s.call m c).1 = s.withFailures n := by
    intro hs
    rw [hs]
    exact s.exists_withFailures
  have hcall : ∃ n, (s.call m c).1 = s.withFailures n := by
    cases c with
    | create d createdBy => exact r.faithful.refused_create (Reply.ofTask_eq_error h)
    | update id d => exact hsame (refused_update_eq (Reply.ofTask_eq_error h) (hu id d · rfl))
    | toggle id => exact r.faithful.refused_toggle (Reply.ofTask_eq_error h)
    | delete id => exact hsame (refused_delete_eq h)
    | run id works finishedAt => exact hsame (refused_run_eq h)
  refine ⟨hcall, fun k => ?_⟩
  obtain ⟨n, hn⟩ := hcall
  rw [hn]
  exact ⟨s.engine.lookup_withFailures n k, s.engine.next?_withFailures n k⟩

end Service

namespace Sample

def dormant : Service Cluster.Memory :=
  (created.perform moment (.toggle id)).turn (.setFaults false 1)

theorem run_dormant : Service.Run site 0 options [] [.ok ⟨1⟩] dormant := by
  have ha : created.answers moment (.toggle id) = [] := by decide +kernel
  have r := run_created.perform moment (.toggle id)
  rw [ha] at r
  exact r.turn (.setFaults false 1)

end Sample

/-- The timer refuses to take back a task that is switched off. -/
theorem Service.Run.refused_call_toggle : ∃ e,
    Service.Run Sample.site 0 Sample.options [] [.ok ⟨1⟩] Sample.dormant ∧
      (Sample.dormant.call Sample.moment (.toggle Sample.id)).2 = .error e ∧
      ∃ n, (Sample.dormant.call Sample.moment (.toggle Sample.id)).1 =
        Sample.dormant.withFailures n := by
  have r := Sample.run_dormant
  have h : (Sample.dormant.call Sample.moment (.toggle Sample.id)).2 =
      .error (.scheduling (.unavailable "injected registration failure")) := by
    have hr : (Sample.dormant.toggle Sample.moment Sample.id).2 =
        .error (.scheduling (.unavailable "injected registration failure")) := by
      decide +kernel
    simp only [Service.call, hr, Service.Reply.ofTask]
  exact ⟨_, r, h, (Service.Run.refused_call r h nofun).1⟩

end Snapshots
