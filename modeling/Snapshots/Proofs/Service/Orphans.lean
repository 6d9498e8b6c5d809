import Snapshots.Proofs.Service.Busy

/-! # Histories of tasks that are gone

A firing is put in the history without a look at the tasks, and its task may be deleted before, and
another created in its place. The history of a task that is gone is there only as long as a firing
or a deletion is still to forget it.
-/

namespace Snapshots

open Firing Timer

namespace Service

variable {φ σ : Type}

theorem history_restore (m : Moment) (s : Service φ) (t : Task) :
    (restore m s t).history = s.history := by
  unfold restore
  split
  · rfl
  · split <;> rfl

theorem history_foldl_restore (m : Moment) (ts : List Task) (s : Service φ) :
    (ts.foldl (restore m) s).history = s.history := by
  induction ts generalizing s with
  | nil => rfl
  | cons t ts ih => exact (ih _).trans (history_restore m s t)

theorem forTask_start (site : Site φ) (owner : Nat) (options : Options) (m : Moment)
    (id : String) : (start site owner options m).history.forTask id = [] := by
  rw [start, history_foldl_restore]
  rfl

/-- A firing of this task stands between its record and the end of its look for the task. -/
def Stage.Settles : Stage σ → String → Prop
  | recorded id, k => id = k
  | orphaned id, k => id = k
  | _, _ => False

namespace Busy

variable {site : Site φ} {owner : Nat} {options : Options} {m : Moment} {log : List Change}
  {w w' : Busy φ σ} {id : String}

/-- Some firing of a task is in the history, and has not ended. -/
def Settling (w : Busy φ σ) (id : String) : Prop :=
  ∃ f ∈ w.firings, f.Settles id

theorem settling_iff {fs fs' : List (Stage σ)} {f : Stage σ} (hf : w.firings = fs ++ f :: fs') :
    w.Settling id ↔ f.Settles id ∨ ∃ f ∈ fs ++ fs', f.Settles id := by
  simp only [Settling, hf, List.mem_append, List.mem_cons]
  constructor
  · rintro ⟨g, hg | rfl | hg, hid⟩
    · exact .inr ⟨g, .inl hg, hid⟩
    · exact .inl hid
    · exact .inr ⟨g, .inr hg, hid⟩
  · rintro (hid | ⟨g, hg | hg, hid⟩)
    · exact ⟨f, .inr (.inl rfl), hid⟩
    · exact ⟨g, .inl hg, hid⟩
    · exact ⟨g, .inr (.inr hg), hid⟩

theorem Settling.replace {fs fs' : List (Stage σ)} {f g : Stage σ} (h : w.Settling id)
    (hf : w.firings = fs ++ f :: fs') (hg : w'.firings = fs ++ g :: fs')
    (hfg : f.Settles id → g.Settles id) : w'.Settling id :=
  (settling_iff hg).2 (((settling_iff hf).1 h).imp_left hfg)

/-- A task is removed, and its deletion has not ended. -/
def Deleting (w : Busy φ σ) (id : String) : Prop :=
  w.holder? = some (.strike id) ∨ w.holder? = some (.forget id)

/-- Tasks stand under their identities, and a history without a task is still to be forgotten. -/
structure Tidy (w : Busy φ σ) : Prop where
  id_eq : ∀ {k t}, w.tasks.get? k = some t → t.id = k
  attended : ∀ {k}, w.history.forTask k ≠ [] →
    (∃ t, w.tasks.get? k = some t) ∨ w.Settling k ∨ w.Deleting k

namespace Tidy

theorem start (site : Site φ) (owner : Nat) (options : Options) (m : Moment) :
    Tidy (start site owner options m : Busy φ σ) where
  id_eq := (mirrored_start site owner options m).id_eq
  attended h := absurd (forTask_start site owner options m _) h

theorem keep (h : Tidy w) (ht : w'.tasks = w.tasks) (hh : w'.history = w.history)
    (hs : ∀ k, w.Settling k → w'.Settling k ∨ ∃ t, w.tasks.get? k = some t)
    (hd : ∀ k, w.Deleting k → w'.Deleting k) : Tidy w' := by
  constructor
  · intro k t hk
    rw [ht] at hk
    exact h.id_eq hk
  · intro k hk
    rw [hh] at hk
    rw [ht]
    rcases h.attended hk with hk | hk | hk
    · exact .inl hk
    · exact (hs k hk).symm.imp_right .inl
    · exact .inr (.inr (hd k hk))

theorem insert (h : Tidy w) (t : Task) (ht : w'.tasks = w.tasks.insert t.id t)
    (hh : w'.history = w.history) (hs : ∀ k, w.Settling k → w'.Settling k)
    (hd : ∀ k, w.Deleting k → w'.Deleting k) : Tidy w' := by
  constructor
  · intro k t' hk
    rw [ht, Table.get?_insert] at hk
    split at hk
    · rename_i hkid
      cases hk
      exact hkid.symm
    · exact h.id_eq hk
  · intro k hk
    rw [hh] at hk
    rcases h.attended hk with ⟨t', ht'⟩ | hk | hk
    · left
      rw [ht, Table.get?_insert]
      split
      · exact ⟨t, rfl⟩
      · exact ⟨t', ht'⟩
    · exact .inr (.inl (hs k hk))
    · exact .inr (.inr (hd k hk))

theorem erase (h : Tidy w) (id : String) (ht : w'.tasks = w.tasks.erase id)
    (hh : w'.history = w.history) (hs : ∀ k, w.Settling k → w'.Settling k)
    (hd : w'.Deleting id) (hother : ∀ k, ¬ w.Deleting k) : Tidy w' := by
  constructor
  · intro k t hk
    rw [ht, Table.get?_erase] at hk
    split at hk
    · cases hk
    · exact h.id_eq hk
  · intro k hk
    rw [hh] at hk
    by_cases hkid : k = id
    -- Whatever the history of the removed task is, its deletion is still to forget it.
    · subst hkid
      exact .inr (.inr hd)
    · rw [ht, Table.get?_erase, if_neg hkid]
      rcases h.attended hk with hk | hk | hk
      · exact .inl hk
      · exact .inr (.inl (hs k hk))
      · exact absurd hk (hother k)

theorem forget (h : Tidy w) (id : String) (ht : w'.tasks = w.tasks)
    (hh : w'.history = w.history.forget id)
    (hs : ∀ k, k ≠ id → w.Settling k → w'.Settling k)
    (hd : ∀ k, k ≠ id → w.Deleting k → w'.Deleting k) : Tidy w' := by
  constructor
  · intro k t hk
    rw [ht] at hk
    exact h.id_eq hk
  · intro k hk
    rw [hh, History.forTask_forget] at hk
    split at hk
    · exact absurd rfl hk
    · rename_i hne
      rw [ht]
      exact (h.attended hk).imp_right (Or.imp (hs k hne) (hd k hne))

theorem record (h : Tidy w) (r : Record) (ht : w'.tasks = w.tasks)
    (hh : w'.history = w.history.record r) (hr : w'.Settling r.taskId)
    (hs : ∀ k, w.Settling k → w'.Settling k) (hd : ∀ k, w.Deleting k → w'.Deleting k) :
    Tidy w' := by
  constructor
  · intro k t hk
    rw [ht] at hk
    exact h.id_eq hk
  · intro k hk
    rw [hh, History.forTask_record] at hk
    split at hk
    · rename_i hkid
      subst hkid
      exact .inr (.inl hr)
    · rw [ht]
      exact (h.attended hk).imp_right (Or.imp (hs k) (hd k))

theorem proceed (h : Tidy w) {x : Holder} {s : Service φ} {x? : Option Holder} {c? : Option Change}
    (hx : w.holder? = some x) (hact : x.act w.toService m = (s, x?, c?)) :
    Tidy { w with toService := s, holder? := x? } := by
  have ht := x.act_tasks w.toService m
  have hh := x.act_history w.toService m
  rw [hact] at ht hh
  have hdeleting : ∀ k, w.Deleting k → x = .strike k ∨ x = .forget k := by
    rintro k (hk | hk)
    · exact .inl (Option.some.inj (hx.symm.trans hk))
    · exact .inr (Option.some.inj (hx.symm.trans hk))
  have hother : (∀ k, x ≠ .strike k ∧ x ≠ .forget k) → ∀ k, ¬ w.Deleting k :=
    fun hx k hk => (hdeleting k hk).elim (hx k).1 (hx k).2
  cases x with
  | withdraw c t previous? =>
    exact h.keep ht hh (fun k hk => .inl hk) fun k hk => (hother (by simp) k hk).elim
  | install c t previous? =>
    exact h.keep ht hh (fun k hk => .inl hk) fun k hk => (hother (by simp) k hk).elim
  | reinstate previous =>
    exact h.keep ht hh (fun k hk => .inl hk) fun k hk => (hother (by simp) k hk).elim
  | commit c t =>
    exact h.insert t ht hh (fun k hk => hk) fun k hk => (hother (by simp) k hk).elim
  | remove id =>
    cases hact
    exact h.erase id ht hh (fun k hk => hk) (.inl rfl) (hother (by simp))
  | strike id =>
    cases hact
    refine h.keep ht hh (fun k hk => .inl hk) fun k hk => ?_
    rcases hdeleting k hk with hk | hk
    · cases hk
      exact .inr rfl
    · cases hk
  | forget id =>
    refine h.forget id ht hh (fun k _ hk => hk) fun k hne hk => ?_
    rcases hdeleting k hk with hk | hk
    · cases hk
    · cases hk
      exact absurd rfl hne

variable [Fleet φ σ]

theorem step (h : Tidy w) {c? : Option Change} (hs : Step w c? w') : Tidy w' := by
  cases hs with
  | enter m r hx _ =>
    exact h.keep rfl rfl (fun k hk => .inl hk) fun k hk => by simp [Deleting, hx] at hk
  | proceed m hx hact => exact h.proceed hx hact
  | run m id firedAt hx hstamp =>
    obtain ⟨t, -, hstamp⟩ := Option.map_eq_some_iff.1 hstamp
    cases hstamp
    exact h.insert _ rfl rfl (fun k ⟨f, hf, hk⟩ => ⟨f, List.mem_append_left _ hf, hk⟩)
      fun k hk => hk
  | runJob m firedAt hx hjobs howner hstamp =>
    obtain ⟨t, -, hstamp⟩ := Option.map_eq_some_iff.1 hstamp
    cases hstamp
    exact h.insert _ rfl rfl (fun k ⟨f, hf, hk⟩ => ⟨f, List.mem_append_left _ hf, hk⟩)
      fun k hk => hk
  | skipJob hx hjobs hgone => exact h.keep rfl rfl (fun k hk => .inl hk) fun k hk => hk
  | launch hf =>
    exact h.keep rfl rfl (fun k hk => .inl (hk.replace hf rfl False.elim)) fun k hk => hk
  | work unit hf =>
    exact h.keep rfl rfl (fun k hk => .inl (hk.replace hf rfl False.elim)) fun k hk => hk
  | record finishedAt hf hr =>
    exact h.record _ rfl rfl ⟨.recorded _, by simp, rfl⟩
      (fun k hk => hk.replace hf rfl False.elim) fun k hk => hk
  | find hx hf hid =>
    refine h.keep rfl rfl (fun k hk => ?_) fun k hk => hk
    rcases (settling_iff hf).1 hk with hk | hk
    -- The firing that is settled no longer attends to the history, but the task that it found does.
    · subst hk
      exact .inr ((Table.contains_iff ..).1 hid)
    · exact .inl hk
  | miss hx hf hid =>
    exact h.keep rfl rfl (fun k hk => .inl (hk.replace hf rfl fun hk => hk)) fun k hk => hk
  | forget hf =>
    refine h.forget _ rfl rfl (fun k hne hk => ?_) fun k _ hk => hk
    rcases (settling_iff hf).1 hk with hk | hk
    · exact absurd hk.symm hne
    · exact hk
  | change fleet => exact h.keep rfl rfl (fun k hk => .inl hk) fun k hk => hk
  | turn hturn => exact h.keep rfl rfl (fun k hk => .inl hk) fun k hk => hk
  | collect hl => exact h.keep rfl rfl (fun k hk => .inl hk) fun k hk => hk
  | fire hm hjob => exact h.keep rfl rfl (fun k hk => .inl hk) fun k hk => hk

end Tidy

variable [Fleet φ σ]

theorem Reached.tidy (r : Reached site owner options m log w) : Tidy w :=
  r.keeps (q := fun _ w => Tidy w) (.start site owner options m) fun h hs => h.step hs

theorem Reached.keyed {s : Service φ} {x? : Option Holder} {jobs : List Job}
    {firings : List (Stage σ)} (r : Reached site owner options m log ⟨s, x?, jobs, firings⟩)
    {k : String} {t : Task} (ht : s.tasks.get? k = some t) : t.id = k :=
  r.tidy.id_eq ht

/-- Whatever firings, jobs and calls went on at the same time: a task with a history is there,
unless one of its firings is in the history and has not ended, or its deletion has not. -/
theorem Reached.task_of_history (r : Reached site owner options m log w)
    (hsettled : ¬ w.Settling id) (hdeleted : ¬ w.Deleting id)
    (hid : w.history.forTask id ≠ []) : ∃ t, w.tasks.get? id = some t ∧ t.id = id := by
  rcases r.tidy.attended hid with ⟨t, ht⟩ | hs | hd
  · exact ⟨t, ht, r.tidy.id_eq ht⟩
  · exact absurd hs hsettled
  · exact absurd hd hdeleted

end Busy

end Service

namespace Service.Busy

/-- The task was deleted and created again while a run of it was under way. -/
theorem Reached.task_of_history_recreated :
    Reached Sample.equipped 0 Sample.options Sample.moment Sample.log Sample.ended ∧
      ¬ Sample.ended.Settling Sample.id ∧ ¬ Sample.ended.Deleting Sample.id ∧
      Sample.ended.history.forTask Sample.id = [Sample.record] ∧
      ∃ t, Sample.ended.tasks.get? Sample.id = some t ∧ t.id = Sample.id := by
  have r := Sample.reached_ended
  have hsettled : ¬ Sample.ended.Settling Sample.id := by
    rintro ⟨_, hf, -⟩
    cases hf
  have hdeleted : ¬ Sample.ended.Deleting Sample.id := by
    rintro (hx | hx) <;> cases hx
  have hhistory : Sample.ended.history.forTask Sample.id = [Sample.record] := by decide +kernel
  refine ⟨r, hsettled, hdeleted, hhistory, ?_⟩
  apply r.task_of_history hsettled hdeleted
  rw [hhistory]
  exact List.cons_ne_nil _ _

end Service.Busy

end Snapshots
