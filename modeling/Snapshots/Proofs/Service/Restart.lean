import Snapshots.Proofs.Service.Alike

/-! # Restarts go unnoticed

Every call does the same to two services that are alike, and a service that starts over the file of
another is like it. So no later call can tell that there was a restart.
-/

namespace Snapshots

open Firing Timer

namespace Service

variable {φ σ : Type} [Fleet φ σ] {s s' : Service φ} {m : Moment}

/-! ### Calls -/

/-- Two services come out of a call alike, with the same reply but for due times. -/
structure Same (p p' : Service φ × Reply) : Prop where
  mirrored : Mirrored p.1
  alike : Alike p.1 p'.1
  kept_eq : p'.2.kept = p.2.kept

theorem Same.refused (a : Alike s s') (hs : Mirrored s) (r : Reply) : Same (s, r) (s', r) :=
  ⟨hs, a, rfl⟩

theorem Same.commit {s₁ s₁' : Service φ} (a : Alike s₁ s₁') (hs : Mirrored s₁) {t : Task}
    (ht : Store.kept t = t) (ho : s₁.options = s.options) (hf : s₁.files = s.files)
    (hsaved : CallSaves m s ((s₁.commit m t).1, .ofTask (s₁.commit m t).2)) :
    Same ((s₁.commit m t).1, .ofTask (s₁.commit m t).2)
      ((s₁'.commit m t).1, .ofTask (s₁'.commit m t).2) where
  mirrored := by
    refine mirrored_persist (hs.insert ht) ?_
    have h := hsaved rfl
    rw [← ho, ← hf] at h
    exact h
  alike := (a.put t).persist (hs.insert ht) m
  kept_eq := rfl

theorem Same.create (a : Alike s s') (hs : Mirrored s) {d : Definition} {createdBy : String}
    (h : Available (s.createAnswers m d createdBy))
    (h' : Available (s'.createAnswers m d createdBy))
    (hsaved : CallSaves m s (s.call m (.create d createdBy))) :
    Same (s.call m (.create d createdBy)) (s'.call m (.create d createdBy)) := by
  simp only [createAnswers, a.validate_eq, a.contains_eq] at h h'
  simp only [call, Service.create, a.validate_eq, a.contains_eq] at hsaved ⊢
  cases hv : s.validate m d with
  | error e => exact .refused a hs _
  | ok _ =>
    simp only [hv] at h h' hsaved ⊢
    by_cases hc : s.tasks.contains (Task.ofDefinition d createdBy m.now).id = true
    · simp only [if_pos hc]
      exact .refused a hs _
    · simp only [if_neg hc] at h h' hsaved ⊢
      obtain ⟨s₁, s₁', hs₁, a₁, ho, hf, ⟨e, hr, hr'⟩ | ⟨k, k', hr, hr'⟩⟩ :=
        a.register_cases hs (h _ List.mem_cons_self) (h' _ List.mem_cons_self)
      · simp only [hr, hr']
        exact .refused a₁ hs₁ _
      · simp only [hr, hr'] at hsaved ⊢
        exact .commit a₁ hs₁ rfl ho hf hsaved

theorem Same.update (a : Alike s s') (hs : Mirrored s) {id : String} {d : Definition}
    (h : Available (s.updateAnswers m id d))
    (h' : Available (s'.updateAnswers m id d))
    (hsaved : CallSaves m s (s.call m (.update id d))) :
    Same (s.call m (.update id d)) (s'.call m (.update id d)) := by
  simp only [call, Service.update, a.validate_eq, a.get?_eq] at hsaved ⊢
  cases hv : s.validate m d with
  | error e => exact .refused a hs _
  | ok _ =>
    cases hg : s.tasks.get? id with
    | none => exact .refused a hs _
    | some previous =>
      simp only [hv, hg] at hsaved ⊢
      cases he : (previous.apply d m.now).enabled with
      | false =>
        simp only [he] at hsaved ⊢
        exact .commit (a.unregister id) (hs.unregister id) rfl rfl rfl hsaved
      | true =>
        simp only [he, if_true] at hsaved ⊢
        have hmem := mem_updateAnswers hv hg he
        have hmem' := mem_updateAnswers ((a.validate_eq m d).trans hv) ((a.get?_eq id).trans hg) he
        obtain ⟨s₁, s₁', hs₁, a₁, ho, hf, ⟨e, hr, hr'⟩ | ⟨k, k', hr, hr'⟩⟩ :=
          a.register_cases hs (h _ hmem) (h' _ hmem')
        · simp only [hr, hr']
          exact .refused (a₁.reinstate previous) (hs₁.reinstate previous) _
        · simp only [hr, hr'] at hsaved ⊢
          exact .commit a₁ hs₁ rfl ho hf hsaved

theorem Same.toggle (a : Alike s s') (hs : Mirrored s) {id : String}
    (h : Available (s.toggleAnswers m id))
    (h' : Available (s'.toggleAnswers m id))
    (hsaved : CallSaves m s (s.call m (.toggle id))) :
    Same (s.call m (.toggle id)) (s'.call m (.toggle id)) := by
  simp only [toggleAnswers, a.get?_eq] at h h'
  simp only [call, Service.toggle, a.get?_eq] at hsaved ⊢
  cases hg : s.tasks.get? id with
  | none => exact .refused a hs _
  | some previous =>
    have hkept : Store.kept { previous with enabled := !previous.enabled, updatedAt := m.now } =
        { previous with enabled := !previous.enabled, updatedAt := m.now } := by
      rw [← hs.kept_eq hg]
      rfl
    simp only [hg] at h h' hsaved ⊢
    cases he : previous.enabled with
    | true =>
      simp only [he, Bool.not_true, Bool.false_eq_true, if_false] at hkept hsaved ⊢
      exact .commit (a.unregister id) (hs.unregister id) hkept rfl rfl hsaved
    | false =>
      simp only [he, Bool.not_false, if_true] at h h' hkept hsaved ⊢
      obtain ⟨s₁, s₁', hs₁, a₁, ho, hf, ⟨e, hr, hr'⟩ | ⟨k, k', hr, hr'⟩⟩ :=
        a.register_cases hs (h _ List.mem_cons_self) (h' _ List.mem_cons_self)
      · simp only [hr, hr']
        exact .refused a₁ hs₁ _
      · simp only [hr, hr'] at hsaved ⊢
        exact .commit a₁ hs₁ hkept ho hf hsaved

theorem Same.delete (a : Alike s s') (hs : Mirrored s) {id : String}
    (hsaved : CallSaves m s (s.call m (.delete id))) :
    Same (s.call m (.delete id)) (s'.call m (.delete id)) := by
  simp only [call, Service.delete, a.contains_eq] at hsaved ⊢
  by_cases hc : s.tasks.contains id = true
  · simp only [if_pos hc] at hsaved ⊢
    have a₁ : Alike (({ s with tasks := s.tasks.erase id } : Service φ).unregister id)
        (({ s' with tasks := s'.tasks.erase id } : Service φ).unregister id) := by
      refine ⟨a.options_eq, a.files_eq, a.fleet_eq, fun k => ?_⟩
      change (s'.tasks.erase id).get? k = (s.tasks.erase id).get? k
      rw [Table.get?_erase, Table.get?_erase, a.get?_eq]
    have hfiled := hs.toFiled.erase id
    have hmirrored := mirrored_persist
      (s := ({ s with tasks := s.tasks.erase id } : Service φ).unregister id) hfiled
      (hsaved rfl)
    have a₂ := a₁.persist hfiled m
    exact ⟨⟨hmirrored.toFiled, hmirrored.find?_load⟩,
      ⟨a₂.options_eq, a₂.files_eq, a₂.fleet_eq, a₂.get?_eq⟩, rfl⟩
  · simp only [if_neg hc]
    exact .refused a hs _

theorem Same.run (a : Alike s s') (hs : Mirrored s) {id : String} {works : List (Work φ)}
    {finishedAt : Time.Instant} (hsaved : CallSaves m s (s.call m (.run id works finishedAt))) :
    Same (s.call m (.run id works finishedAt)) (s'.call m (.run id works finishedAt)) := by
  simp only [call, Service.run, stamp, a.get?_eq] at hsaved ⊢
  cases hg : s.tasks.get? id with
  | none => exact .refused a hs _
  | some t =>
    have hkept : Store.kept { t with lastExecuted := some m.now } =
        { t with lastExecuted := some m.now } := by
      rw [← hs.kept_eq hg]
      rfl
    simp only [hg, Option.map_some] at hsaved ⊢
    generalize ({ t with lastExecuted := some m.now } : Task) = t₁ at hkept hsaved ⊢
    have hfiled : Filed (s.put t₁).tasks := hs.toFiled.insert hkept
    have a₁ := (a.put t₁).persist hfiled m
    simp only [launch, a₁.options_eq, a₁.fleet_eq] at hsaved ⊢
    -- The same work on the same clusters leads to the same clusters and the same record.
    generalize workThrough _ _ works = worked at hsaved ⊢
    have a₂ : Alike { (s.put t₁).persist m with fleet := worked.1 }
        { (s'.put t₁).persist m with fleet := worked.1 } :=
      ⟨a₁.options_eq, a₁.files_eq, rfl, a₁.get?_eq⟩
    cases hr : worked.2.record? finishedAt with
    | none =>
      simp only [hr] at hsaved ⊢
      have hs₁ : Mirrored ((s.put t₁).persist m) :=
        mirrored_persist hfiled (hsaved rfl)
      exact ⟨⟨hs₁.toFiled, hs₁.find?_load⟩, a₂, rfl⟩
    | some r =>
      simp only [hr] at hsaved ⊢
      have hsaved := hsaved rfl
      rw [(settle_frame _ r).2.2.2] at hsaved
      have hs₁ : Mirrored ((s.put t₁).persist m) := mirrored_persist hfiled hsaved
      have hs₂ : Mirrored { (s.put t₁).persist m with fleet := worked.1 } :=
        ⟨hs₁.toFiled, hs₁.find?_load⟩
      exact ⟨hs₂.ended r, a₂.ended r, rfl⟩

theorem Same.call (a : Alike s s') (hs : Mirrored s) (c : Call φ)
    (h : Available (s.answers m c.deed))
    (h' : Available (s'.answers m c.deed))
    (hsaved : CallSaves m s (s.call m c)) : Same (s.call m c) (s'.call m c) := by
  cases c with
  | create d createdBy => exact .create a hs h h' hsaved
  | update id d => exact .update a hs h h' hsaved
  | toggle id => exact .toggle a hs h h' hsaved
  | delete id => exact .delete a hs hsaved
  | run id works finishedAt => exact .run a hs hsaved

/-! ### Plays -/

/-- A play goes on in the same way for a service that is like another, restarts left out or not. -/
theorem Alike.play (steps : List (Step φ)) (a : Alike s s') (hs : Mirrored s)
    (hsaves : s.Throughout Saves (steps.filter Step.keepsService))
    (h : s.Throughout TimerAvailable (steps.filter Step.keepsService))
    (h' : s'.Throughout TimerAvailable steps) :
    (s'.play steps).2 = (s.play (steps.filter Step.keepsService)).2 ∧
      Mirrored (s.play (steps.filter Step.keepsService)).1 ∧
      Alike (s.play (steps.filter Step.keepsService)).1 (s'.play steps).1 := by
  induction steps generalizing s s' with
  | nil => exact ⟨rfl, hs, a⟩
  | cons x steps ih =>
    cases x with
    | restart m engine owner =>
      rw [List.filter_cons_of_neg (by simp [Step.keepsService])] at hsaves h ⊢
      obtain ⟨hseen, hs₁, a₁⟩ := ih (a.restarted hs m engine owner) hs hsaves h h'.2
      exact ⟨hseen, hs₁, a₁⟩
    | turn t =>
      rw [List.filter_cons_of_pos (by simp [Step.keepsService])] at hsaves h ⊢
      have a₁ : Alike (s.turn t) (s'.turn t) := ⟨a.options_eq, a.files_eq, a.fleet_eq, a.get?_eq⟩
      have hs₁ : Mirrored (s.turn t) := ⟨hs.toFiled, hs.find?_load⟩
      exact ih a₁ hs₁ hsaves.2 h.2 h'.2
    | call m change c =>
      rw [List.filter_cons_of_pos (by simp [Step.keepsService])] at hsaves h ⊢
      have a₁ : Alike (s.changed change) (s'.changed change) :=
        ⟨a.options_eq, a.files_eq, congrArg change a.fleet_eq, a.get?_eq⟩
      have hs₁ : Mirrored (s.changed change) := ⟨hs.toFiled, hs.find?_load⟩
      have hsame := Same.call a₁ hs₁ c h.1 h'.1 hsaves.1
      obtain ⟨hseen, hs₂, a₂⟩ := ih hsame.alike hsame.mirrored hsaves.2 h.2 h'.2
      refine ⟨?_, hs₂, a₂⟩
      have hlist := hsame.alike.keptList_eq hsame.mirrored.toFiled
      have hdocument := hsame.alike.document_eq
      simp only [Service.play, visit, Option.map_some, Option.toList_some, List.singleton_append]
      rw [hsame.kept_eq, hlist, hdocument]
      exact congrArg _ hseen

/-- Nothing tells two plays apart but due times. -/
structure SameOutcome (p p' : Service φ × List Seen) : Prop where
  seen_eq : p.2 = p'.2
  keptList_eq : p.1.keptList = p'.1.keptList
  files_eq : p.1.files = p'.1.files
  fleet_eq : p.1.fleet = p'.1.fleet

/-- Whatever file a service starts on, its restarts go unnoticed as long as its saves succeed and
its timer is available. -/
theorem play_with_restarts (site : Site φ) (owner : Nat) (options : Options) (m : Moment)
    (steps : List (Step φ))
    (hsaves : (start site owner options m).Throughout Saves (steps.filter Step.keepsService))
    (hkept : (start site owner options m).Throughout TimerAvailable
      (steps.filter Step.keepsService))
    (hrestarted : (start site owner options m).Throughout TimerAvailable steps) :
    SameOutcome ((start site owner options m).play steps)
      ((start site owner options m).play (steps.filter Step.keepsService)) := by
  obtain ⟨hseen, hs, a⟩ := Alike.play steps (.refl _) (mirrored_start site owner options m) hsaves
    hkept hrestarted
  exact ⟨hseen, a.keptList_eq hs.toFiled, a.files_eq, a.fleet_eq⟩

end Service

namespace Sample

/-- A new service takes the place of the old one, with a timer that has no entries. -/
def restart : Service.Step Cluster.Memory :=
  .restart moment (.manual (.new moment.now)) 1

def call (c : Service.Call Cluster.Memory) : Service.Step Cluster.Memory :=
  .call moment (fun fleet => fleet) c

def steps : List (Service.Step Cluster.Memory) :=
  [call (.create definition "alice"), call (.update id slower), call (.toggle id), restart,
    call (.run id [.step 0, .step 0, .step 0] moment.now), restart, call (.delete id)]

def equipped : Site Cluster.Memory :=
  { site with fleet := site.fleet.add { name := "east", volumes := [("prod", "db-pvc")] } }

def started : Service Cluster.Memory :=
  Service.start equipped 0 options moment

end Sample

namespace Service

theorem play_with_restarts_sample :
    Sample.started.Throughout Saves (Sample.steps.filter Step.keepsService) ∧
      Sample.started.Throughout TimerAvailable (Sample.steps.filter Step.keepsService) ∧
      Sample.started.Throughout TimerAvailable Sample.steps ∧
      SameOutcome (Sample.started.play Sample.steps)
        (Sample.started.play (Sample.steps.filter Step.keepsService)) := by
  have hsaves : Sample.started.Throughout Saves (Sample.steps.filter Step.keepsService) := by
    decide +kernel
  have hkept : Sample.started.Throughout TimerAvailable
      (Sample.steps.filter Step.keepsService) := by
    decide +kernel
  have hrestarted : Sample.started.Throughout TimerAvailable Sample.steps := by decide +kernel
  have h := play_with_restarts Sample.equipped 0 Sample.options Sample.moment Sample.steps
  exact ⟨hsaves, hkept, hrestarted, h hsaves hkept hrestarted⟩

end Service

end Snapshots
