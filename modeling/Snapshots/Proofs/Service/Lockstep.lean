import Snapshots.Proofs.Service.Deeds
import Snapshots.Proofs.Table

/-! # Tasks, registry and timer in lockstep

In every state of a run, the registered tasks are enabled ones, the entries of the timer are those
of the registered tasks, each made from its task as it is now, and no handle was handed out twice.
As long as the timer refused nothing, every enabled task is registered.
-/

namespace Snapshots

open Cron Timer

/-- An entry is that of a task: its schedule is what the expression of the task stands for, and its
job holds the task as it is, but for the time of its last firing. -/
structure Serves (owner : Nat) (t : Task) (entry : Schedule × Job) : Prop where
  schedule : ∃ now, Schedule.parse now t.cron = .ok entry.1
  owner_eq : entry.2.owner = owner
  task_eq : { entry.2.task with lastExecuted := t.lastExecuted } = t

/-- Tasks, registry and timer agree, given all that the timer has answered so far. -/
structure Lockstep (answers : List Answer) (owner : Nat) (tasks : Table String Task)
    (handles : Registry) (engine : Engine Job) : Prop where
  id_eq : ∀ {k t}, tasks.get? k = some t → t.id = k
  registered : ∀ {k h}, handles.get? k = some h →
    ∃ t entry, tasks.get? k = some t ∧ t.enabled = true ∧ engine.lookup h = some entry ∧
      Serves owner t entry
  distinct : ∀ {k k' h}, handles.get? k = some h → handles.get? k' = some h → k = k'
  owned : ∀ {h entry}, engine.lookup h = some entry → ∃ k, handles.get? k = some h
  handed_nodup : (handedOut answers).Nodup
  mem_handed : ∀ {k h}, handles.get? k = some h → h ∈ handedOut answers
  handed_le : ∀ h ∈ handedOut answers, h.number ≤ engine.lastNumber
  complete : (∀ a ∈ answers, ∃ h, a = .ok h) →
    ∀ {k t}, tasks.get? k = some t → t.enabled = true → ∃ h, handles.get? k = some h

theorem Serves.id_eq {owner : Nat} {t : Task} {entry : Schedule × Job}
    (hs : Serves owner t entry) : entry.2.task.id = t.id := by
  have h := congrArg Task.id hs.task_eq
  exact h

theorem Serves.name_eq {owner : Nat} {t : Task} {entry : Schedule × Job}
    (hs : Serves owner t entry) : entry.2.task.name = t.name := by
  have h := congrArg Task.name hs.task_eq
  exact h

theorem Serves.stamp {owner : Nat} {t : Task} {entry : Schedule × Job} (hs : Serves owner t entry)
    (last : Option Time.Instant) : Serves owner { t with lastExecuted := last } entry where
  schedule := hs.schedule
  owner_eq := hs.owner_eq
  task_eq := by
    obtain ⟨_, _, ht⟩ := hs
    rw [← ht]

namespace Lockstep

variable {as : List Answer} {owner : Nat} {tasks tasks' : Table String Task}
  {handles handles' : Registry} {engine engine' : Engine Job}

theorem contains_iff (l : Lockstep as owner tasks handles engine) (h : Handle) :
    engine.contains h = true ↔ ∃ k, handles.get? k = some h := by
  rw [engine.contains_iff]
  constructor
  · rintro ⟨entry, he⟩
    exact l.owned he
  · rintro ⟨k, hk⟩
    obtain ⟨_, entry, _, _, he, _⟩ := l.registered hk
    exact ⟨entry, he⟩

theorem size_eq (l : Lockstep as owner tasks handles engine) : engine.size = handles.size :=
  Registry.size_eq l.contains_iff l.distinct

theorem empty (owner : Nat) (he : engine.size = 0) :
    Lockstep [] owner .empty .empty engine where
  id_eq h := by simp at h
  registered h := by simp at h
  distinct h := by simp at h
  owned h := by simp [Engine.lookup_eq_none_of_size_eq_zero he] at h
  handed_nodup := by simp
  mem_handed h := by simp at h
  handed_le h := by simp
  complete _ _ _ h := by simp at h

theorem refuse (l : Lockstep as owner tasks handles engine) (e : RegisterError) :
    Lockstep (as ++ [.error e]) owner tasks handles engine where
  id_eq := l.id_eq
  registered := l.registered
  distinct := l.distinct
  owned := l.owned
  handed_nodup := by simpa using l.handed_nodup
  mem_handed h := by simpa using l.mem_handed h
  handed_le := by simpa using l.handed_le
  complete h := by
    obtain ⟨_, hn⟩ := h (.error e) (by simp)
    cases hn

theorem remove (l : Lockstep as owner tasks handles engine) {id : String}
    (hid : ∀ {t}, tasks'.get? id = some t → t.id = id)
    (hoff : (∃ a ∈ as, ∃ e, a = .error e) ∨ ∀ {t}, tasks'.get? id = some t → t.enabled = false)
    (hother : ∀ k, k ≠ id → tasks'.get? k = tasks.get? k)
    (hh : ∀ k, handles'.get? k = if k = id then none else handles.get? k)
    (hk : ∀ k, engine'.lookup k = if handles.get? id = some k then none else engine.lookup k)
    (hl : engine'.lastNumber = engine.lastNumber) :
    Lockstep as owner tasks' handles' engine' := by
  have hkept : ∀ {k h}, handles'.get? k = some h → k ≠ id ∧ handles.get? k = some h := by
    intro k h hkh
    rw [hh] at hkh
    split at hkh
    · cases hkh
    · exact ⟨‹_›, hkh⟩
  exact {
    id_eq := by
      intro k t ht
      by_cases hkid : k = id
      · subst hkid
        exact hid ht
      · exact l.id_eq (hother k hkid ▸ ht)
    registered := by
      intro k h hkh
      obtain ⟨hne, hkh⟩ := hkept hkh
      obtain ⟨t, entry, ht, he, hent, hserves⟩ := l.registered hkh
      have hlive : handles.get? id ≠ some h := fun hid' => hne (l.distinct hkh hid')
      exact ⟨t, entry, (hother k hne).trans ht, he, (hk h).trans ((if_neg hlive).trans hent),
        hserves⟩
    distinct := fun h₁ h₂ => l.distinct (hkept h₁).2 (hkept h₂).2
    owned := by
      intro h entry he
      rw [hk] at he
      split at he
      · cases he
      · rename_i hne
        obtain ⟨k, hkh⟩ := l.owned he
        have hkid : k ≠ id := by
          rintro rfl
          exact hne hkh
        exact ⟨k, (hh k).trans ((if_neg hkid).trans hkh)⟩
    handed_nodup := l.handed_nodup
    mem_handed := fun hkh => l.mem_handed (hkept hkh).2
    handed_le := hl ▸ l.handed_le
    complete := by
      intro hok k t ht he
      by_cases hkid : k = id
      · subst hkid
        rcases hoff with ⟨a, ha, e, rfl⟩ | hoff
        · obtain ⟨_, hn⟩ := hok _ ha
          cases hn
        · rw [hoff ht] at he
          cases he
      · obtain ⟨h, hkh⟩ := l.complete hok (hother k hkid ▸ ht) he
        exact ⟨h, (hh k).trans ((if_neg hkid).trans hkh)⟩ }

theorem refused (l : Lockstep as owner tasks handles engine) {wall : Time.Instant} {id x : String}
    {job : Job} {e : RegisterError}
    (hr : handles.register engine wall id x job = (handles', engine', .error e)) :
    Lockstep (as ++ [.error e]) owner tasks handles' engine' := by
  obtain ⟨hh, hk, hl⟩ := Registry.register_error hr
  exact (l.refuse e).remove (fun ht => l.id_eq ht) (.inl ⟨.error e, by simp, e, rfl⟩)
    (fun _ _ => rfl) hh hk hl

theorem unregister (l : Lockstep as owner tasks handles engine) (id : String) :
    Lockstep as owner (tasks.erase id) (handles.unregister engine id).1
      (handles.unregister engine id).2 := by
  have hgone : ∀ {t}, (tasks.erase id).get? id = some t → False := by
    intro t ht
    rw [Table.get?_erase_self] at ht
    cases ht
  apply l.remove (fun ht => (hgone ht).elim) (.inr fun ht => (hgone ht).elim)
  · intro k hk
    exact (Table.get?_erase ..).trans (if_neg hk)
  · exact Registry.get?_unregister handles engine id
  · exact Registry.lookup_unregister handles engine id
  · exact Registry.lastNumber_unregister ..

section

variable {h : Handle} (l : Lockstep as owner tasks handles engine)
  (hfresh : engine.lastNumber < h.number)
include l hfresh

theorem ne_of_handed {h' : Handle} (hm : h' ∈ handedOut as) : h' ≠ h := by
  rintro rfl
  exact absurd (l.handed_le h' hm) (Nat.not_le.2 hfresh)

theorem nodup_handedOut_append : (handedOut (as ++ [.ok h])).Nodup := by
  rw [handedOut_append, handedOut_ok, List.nodup_append]
  refine ⟨l.handed_nodup, List.nodup_singleton h, fun h' hm h'' hm' => ?_⟩
  rw [List.mem_singleton.1 hm']
  exact l.ne_of_handed hfresh hm

theorem add {t : Task} {entry : Schedule × Job} (hlast : engine'.lastNumber = h.number)
    (hlookup : ∀ k, engine'.lookup k = if k = h then some entry else engine.lookup k)
    (hserves : Serves owner t entry) (he : t.enabled = true) (hnone : handles.get? t.id = none)
    (hget : tasks'.get? t.id = some t) (hother : ∀ k, k ≠ t.id → tasks'.get? k = tasks.get? k) :
    Lockstep (as ++ [.ok h]) owner tasks' (handles.insert t.id h) engine' where
  id_eq {k t'} ht' := by
    by_cases hk : k = t.id
    · subst hk
      rw [hget] at ht'
      rw [Option.some.inj ht']
    · exact l.id_eq (hother k hk ▸ ht')
  registered {k h'} hkh := by
    rcases Table.get?_insert_eq_some_iff.1 hkh with ⟨rfl, rfl⟩ | ⟨hk, hkh⟩
    · exact ⟨t, entry, hget, he, (hlookup h').trans (if_pos rfl), hserves⟩
    · obtain ⟨t', entry', ht', he', hent, hserves'⟩ := l.registered hkh
      have hne := l.ne_of_handed hfresh (l.mem_handed hkh)
      exact ⟨t', entry', (hother k hk).trans ht', he',
        (hlookup h').trans ((if_neg hne).trans hent), hserves'⟩
  distinct {k k' h'} hkh hkh' := by
    rcases Table.get?_insert_eq_some_iff.1 hkh with ⟨rfl, rfl⟩ | ⟨-, hkh⟩ <;>
      rcases Table.get?_insert_eq_some_iff.1 hkh' with ⟨rfl, heq⟩ | ⟨-, hkh'⟩
    · rfl
    · exact absurd rfl (l.ne_of_handed hfresh (l.mem_handed hkh'))
    · exact absurd heq (l.ne_of_handed hfresh (l.mem_handed hkh))
    · exact l.distinct hkh hkh'
  owned {h' entry'} hent := by
    rw [hlookup] at hent
    split at hent
    · exact ⟨t.id, Table.get?_insert_eq_some_iff.2 (.inl ⟨rfl, ‹_›⟩)⟩
    · obtain ⟨k, hkh⟩ := l.owned hent
      refine ⟨k, Table.get?_insert_eq_some_iff.2 (.inr ⟨?_, hkh⟩)⟩
      rintro rfl
      rw [hnone] at hkh
      cases hkh
  handed_nodup := l.nodup_handedOut_append hfresh
  mem_handed {k h'} hkh := by
    rw [handedOut_append, List.mem_append]
    rcases Table.get?_insert_eq_some_iff.1 hkh with ⟨-, rfl⟩ | ⟨-, hkh⟩
    · exact .inr (List.mem_singleton_self h')
    · exact .inl (l.mem_handed hkh)
  handed_le h' hm := by
    rw [handedOut_append, List.mem_append] at hm
    rw [hlast]
    rcases hm with hm | hm
    · exact Nat.le_of_lt (Nat.lt_of_le_of_lt (l.handed_le h' hm) hfresh)
    · exact Nat.le_of_eq (congrArg Handle.number (List.mem_singleton.1 hm))
  complete hok k t' ht' he' := by
    by_cases hk : k = t.id
    · exact ⟨h, Table.get?_insert_eq_some_iff.2 (.inl ⟨hk, rfl⟩)⟩
    · obtain ⟨h', hkh⟩ := l.complete (fun a ha => hok a (List.mem_append_left _ ha))
        (hother k hk ▸ ht') he'
      exact ⟨h', Table.get?_insert_eq_some_iff.2 (.inr ⟨hk, hkh⟩)⟩

end

theorem register (l : Lockstep as owner tasks handles engine) {wall : Time.Instant} {t : Task}
    {h : Handle} (hr : handles.register engine wall t.id t.cron ⟨owner, t⟩ =
      (handles', engine', .ok h))
    (he : t.enabled = true) (hget : tasks'.get? t.id = some t)
    (hother : ∀ k, k ≠ t.id → tasks'.get? k = tasks.get? k) :
    Lockstep (as ++ [.ok h]) owner tasks' handles' engine' := by
  rw [Registry.register_eq] at hr
  split at hr
  · rename_i hreg
    cases hr
    obtain ⟨schedule, hp, rfl, hlast, hlookup⟩ := Engine.register_ok hreg
    refine (l.unregister t.id).add (Nat.lt_succ_self _) hlast hlookup ⟨⟨wall, hp⟩, rfl, rfl⟩ he
      (by simp) hget fun k hk => ?_
    rw [hother k hk, Table.get?_erase, if_neg hk]
  · cases hr

theorem stamp (l : Lockstep as owner tasks handles engine) {id : String} {t : Task}
    (ht : tasks.get? id = some t) (last : Option Time.Instant) :
    Lockstep as owner (tasks.insert id { t with lastExecuted := last }) handles engine where
  id_eq {k t'} hk := by
    rcases Table.get?_insert_eq_some_iff.1 hk with ⟨rfl, rfl⟩ | ⟨-, hk⟩
    · have hid : t.id = k := l.id_eq ht
      exact hid
    · exact l.id_eq hk
  registered {k h} hkh := by
    obtain ⟨t', entry, ht', he, hent, hserves⟩ := l.registered hkh
    by_cases hkid : k = id
    · subst hkid
      obtain rfl : t = t' := Option.some.inj (ht.symm.trans ht')
      exact ⟨_, entry, Table.get?_insert_self .., he, hent, hserves.stamp last⟩
    · exact ⟨t', entry, Table.get?_insert_eq_some_iff.2 (.inr ⟨hkid, ht'⟩), he, hent, hserves⟩
  distinct := l.distinct
  owned := l.owned
  handed_nodup := l.handed_nodup
  mem_handed := l.mem_handed
  handed_le := l.handed_le
  complete hok k t' hk he := by
    rcases Table.get?_insert_eq_some_iff.1 hk with ⟨rfl, rfl⟩ | ⟨-, hk⟩
    · exact l.complete hok ht he
    · exact l.complete hok hk he

theorem turn (l : Lockstep as owner tasks handles engine) (t : Turn) :
    Lockstep as owner tasks handles (engine.turn t) where
  id_eq := l.id_eq
  registered h := by simpa using l.registered h
  distinct := l.distinct
  owned h := l.owned (by simpa using h)
  handed_nodup := l.handed_nodup
  mem_handed := l.mem_handed
  handed_le := by simpa using l.handed_le
  complete := l.complete

end Lockstep

namespace Service

variable {φ σ : Type} [Fleet φ σ] {as : List Answer} {s s' : Service φ} {m : Moment}

/-- Tasks, registry and timer of a service agree. -/
def InLockstep (s : Service φ) (as : List Answer) : Prop :=
  Lockstep as s.owner s.tasks s.handles s.engine

namespace InLockstep

theorem refused {t : Task} {e : RegisterError} (l : s.InLockstep as)
    (hr : s.register m t = (s', .error e)) : s'.InLockstep (as ++ [.error e]) := by
  obtain ⟨hr, hs⟩ := register_eq hr
  rw [hs]
  exact Lockstep.refused l hr

theorem registerPut {t : Task} {h : Handle} (l : s.InLockstep as)
    (hr : s.register m t = (s', .ok h)) (he : t.enabled = true) :
    (s'.put t).InLockstep (as ++ [.ok h]) := by
  obtain ⟨hr, hs⟩ := register_eq hr
  rw [hs]
  exact Lockstep.register l hr he (Table.get?_insert_self ..)
    fun k hk => (Table.get?_insert ..).trans (if_neg hk)

theorem registerKept {t : Task} {h : Handle} (l : s.InLockstep as)
    (hr : s.register m t = (s', .ok h)) (he : t.enabled = true)
    (ht : s.tasks.get? t.id = some t) : s'.InLockstep (as ++ [.ok h]) := by
  obtain ⟨hr, hs⟩ := register_eq hr
  rw [hs]
  exact Lockstep.register l hr he ht fun _ _ => rfl

theorem unregisterPut {t : Task} (l : s.InLockstep as) (he : t.enabled = false) :
    ((s.unregister t.id).put t).InLockstep as := by
  have hput : ∀ {t'}, (s.tasks.insert t.id t).get? t.id = some t' → t = t' := by
    intro t' ht'
    rw [Table.get?_insert_self] at ht'
    exact Option.some.inj ht'
  exact Lockstep.remove l (fun ht => hput ht ▸ rfl) (.inr fun ht => hput ht ▸ he)
    (fun k hk => (Table.get?_insert ..).trans (if_neg hk))
    (Registry.get?_unregister s.handles s.engine t.id)
    (Registry.lookup_unregister s.handles s.engine t.id)
    (Registry.lastNumber_unregister ..)

theorem discard (l : s.InLockstep as) (id : String) : (s.discard m id).InLockstep as :=
  Lockstep.unregister l id

theorem stamp {id : String} {firedAt : Time.Instant} {t : Task} (l : s.InLockstep as)
    (hs : s.stamp m id firedAt = some (s', t)) : s'.InLockstep as := by
  obtain ⟨t', ht', hs⟩ := Option.map_eq_some_iff.1 hs
  cases hs
  have h := Lockstep.stamp l ht' (some firedAt)
  rw [← l.id_eq ht'] at h
  exact h

theorem create (l : s.InLockstep as) (d : Definition) (createdBy : String) :
    (s.create m d createdBy).1.InLockstep (as ++ s.createAnswers m d createdBy) := by
  rcases s.create_cases m d createdBy with
    ⟨e, -, hc, ha⟩ | ⟨-, -, ⟨s', e, hr, hc, ha⟩ | ⟨s', h, hr, hc, ha⟩⟩
  · rw [hc, ha, List.append_nil]
    exact l
  · rw [hc, ha]
    exact l.refused hr
  · rw [hc, ha]
    exact l.registerPut hr rfl

theorem update (l : s.InLockstep as) (id : String) (d : Definition) :
    (s.update m id d).1.InLockstep (as ++ s.updateAnswers m id d) := by
  rcases s.update_cases m id d with ⟨e, -, hu, ha⟩ | ⟨previous, -, ht, ⟨he, hr⟩ | ⟨he, hu, ha⟩⟩
  · rw [hu, ha, List.append_nil]
    exact l
  · rcases hr with ⟨s', e, hr, hu, ha⟩ | ⟨s', h, hr, hu, ha⟩
    · -- The timer refuses the new definition and is asked to take back the old one.
      rw [hu, ha, List.append_cons]
      have l' := l.refused hr
      have ht' : s'.tasks.get? previous.id = some previous := by
        rw [(register_eq hr).2, l.id_eq ht]
        exact ht
      unfold reinstate
      cases hp : previous.enabled with
      | false => simpa using l'
      | true =>
        rcases hr' : s'.register m previous with ⟨s'', e' | h⟩
        · simpa [hr'] using l'.refused hr'
        · simpa [hr'] using l'.registerKept hr' hp ht'
    · rw [hu, ha]
      exact l.registerPut hr he
  · rw [hu, ha, List.append_nil]
    have hid : previous.id = id := l.id_eq ht
    rw [← hid]
    exact l.unregisterPut he

theorem toggle (l : s.InLockstep as) (id : String) :
    (s.toggle m id).1.InLockstep (as ++ s.toggleAnswers m id) := by
  rcases s.toggle_cases m id with ⟨-, hs, ha⟩ | ⟨previous, ht, ⟨he, hr⟩ | ⟨he, hs, ha⟩⟩
  · rw [hs, ha, List.append_nil]
    exact l
  · rcases hr with ⟨s', e, hr, hs, ha⟩ | ⟨s', h, hr, hs, ha⟩
    · rw [hs, ha]
      exact l.refused hr
    · rw [hs, ha]
      exact l.registerPut hr (by simp [toggled, he])
  · rw [hs, ha, List.append_nil]
    have hid : previous.id = id := l.id_eq ht
    rw [← hid]
    exact l.unregisterPut (t := toggled m previous) (by simp [toggled, he])

theorem delete (l : s.InLockstep as) (id : String) : (s.delete m id).1.InLockstep as := by
  unfold Service.delete
  split
  · exact l.discard id
  · exact l

theorem run (l : s.InLockstep as) (id : String) : (s.run m id).1.InLockstep as := by
  unfold Service.run
  split
  · exact l
  · rename_i hs
    exact l.stamp hs

theorem runJob (l : s.InLockstep as) (job : Job) : (s.runJob m job).1.InLockstep as := by
  unfold Service.runJob
  split
  · exact l
  · rename_i hs
    exact l.stamp hs

theorem perform (l : s.InLockstep as) (d : Deed φ) :
    (s.perform m d).InLockstep (as ++ s.answers m d) := by
  cases d with
  | create d createdBy => exact l.create d createdBy
  | update id d => exact l.update id d
  | toggle id => exact l.toggle id
  | delete id => simpa [answers, Service.perform] using l.delete id
  | run id => simpa [answers, Service.perform] using l.run id
  | fire job => simpa [answers, Service.perform] using l.runJob job
  | work fleet history =>
    have ha : s.answers m (.work fleet history) = [] := rfl
    rw [ha, List.append_nil]
    exact l

theorem putNew {t : Task} (l : s.InLockstep as) (hnew : s.tasks.get? t.id = none)
    (hoff : (∃ a ∈ as, ∃ e, a = .error e) ∨ t.enabled = false) : (s.put t).InLockstep as := by
  have hput : ∀ {t'}, (s.tasks.insert t.id t).get? t.id = some t' → t = t' := by
    intro t' ht'
    rw [Table.get?_insert_self] at ht'
    exact Option.some.inj ht'
  have hnone : s.handles.get? t.id = none := by
    by_contra hn
    obtain ⟨h, hh⟩ := Option.ne_none_iff_exists'.1 hn
    obtain ⟨t', _, ht', _⟩ := l.registered hh
    rw [hnew] at ht'
    cases ht'
  refine Lockstep.remove l (fun ht => hput ht ▸ rfl) (hoff.imp_right fun ho _ ht => hput ht ▸ ho)
    (fun k hk => (Table.get?_insert ..).trans (if_neg hk)) (fun k => ?_) (fun k => ?_) rfl
  · split
    · rename_i hk
      rw [hk]
      exact hnone
    · rfl
  · rw [hnone, if_neg (by simp)]
    rfl

theorem restore (l : s.InLockstep as) (t : Task) :
    (restore m s t).InLockstep (as ++ s.restoreAnswers m t) := by
  unfold Service.restore restoreAnswers
  split
  · simpa using l
  · rename_i hc
    have hnew : s.tasks.get? t.id = none := by simpa [Table.contains] using hc
    split
    · rename_i he
      rcases hr : s.register m t with ⟨s', e | h⟩
      · refine (l.refused hr).putNew ?_ (.inl ⟨.error e, by simp, e, rfl⟩)
        rw [(register_eq hr).2]
        exact hnew
      · exact l.registerPut hr he
    · rename_i he
      rw [List.append_nil]
      exact l.putNew hnew (.inr (by simpa using he))

end InLockstep

section

variable {site : Site φ} {owner : Nat} {options : Options} {ts : List Task}

theorem Run.inLockstep (hsite : site.engine.size = 0) (r : Run site owner options ts as s) :
    s.InLockstep as := by
  induction r with
  | load => exact Lockstep.empty owner hsite
  | restore m _ ih => exact ih.restore _
  | turn t _ ih => exact ih.turn t
  | perform m d _ ih => exact ih.perform d

/-- In every state of a run over a timer that had no entries, tasks, registry and timer agree, and
the timer has as many entries as there are registered tasks. -/
theorem Run.lockstep_and_size (hsite : site.engine.size = 0)
    (r : Run site owner options ts as s) :
    s.InLockstep as ∧ s.engine.size = s.handles.size := by
  have l := r.inLockstep hsite
  exact ⟨l, l.size_eq⟩

end

/-- A run with an update that the timer refuses: the task gets a second handle. -/
theorem Run.lockstep_and_size_sample :
    ∃ as, handedOut as = [⟨1⟩, ⟨2⟩] ∧ Sample.site.engine.size = 0 ∧
      Run Sample.site 0 Sample.options [] as (Sample.updated 1) ∧
      (Sample.updated 1).InLockstep as ∧
      (Sample.updated 1).engine.size = (Sample.updated 1).handles.size := by
  have r := (Sample.run_refusing 1).perform Sample.moment (.update Sample.id Sample.slower)
  exact ⟨_, by decide +kernel, rfl, r, Run.lockstep_and_size rfl r⟩

end Service

end Snapshots
