import Snapshots.Proofs.Service.Calls
import Snapshots.Proofs.Store.RoundTrip
import Snapshots.Proofs.Table

/-! # Services that are alike

A service mirrors its tasks in its file if the file leads to them again. A service that starts over
that file has the same tasks, files and clusters, whatever its timer holds.
-/

namespace Snapshots

open Firing Timer

/-- The tasks of a table under their identities, as a file keeps them. -/
structure Filed (tasks : Table String Task) : Prop where
  id_eq : ∀ {k t}, tasks.get? k = some t → t.id = k
  kept_eq : ∀ {k t}, tasks.get? k = some t → Store.kept t = t

namespace Filed

variable {tasks tasks' : Table String Task}

theorem mem_values_iff (h : Filed tasks) {t : Task} :
    t ∈ tasks.values ↔ tasks.get? t.id = some t := by
  rw [Table.mem_values_iff]
  constructor
  · rintro ⟨k, hk⟩
    rw [h.id_eq hk]
    exact hk
  · exact fun hk => ⟨t.id, hk⟩

theorem map_kept_values (h : Filed tasks) : tasks.values.map Store.kept = tasks.values := by
  refine (List.map_congr_left fun t ht => ?_).trans (List.map_id _)
  exact h.kept_eq (h.mem_values_iff.1 ht)

theorem nodup_ids (h : Filed tasks) : (tasks.values.map Task.id).Nodup :=
  Table.nodup_map_values h.id_eq

theorem find?_eq (h : Filed tasks) {ts : List Task} (hp : ts.Perm tasks.values) (k : String) :
    ts.find? (·.id = k) = tasks.get? k := by
  cases hf : ts.find? (·.id = k) with
  | some t =>
    have hid : t.id = k := by simpa using List.find?_some hf
    have ht := h.mem_values_iff.1 (hp.mem_iff.1 (List.mem_of_find?_eq_some hf))
    rw [← hid, ht]
  | none =>
    cases hg : tasks.get? k with
    | none => rfl
    | some t =>
      have hid := h.id_eq hg
      have ht : t ∈ ts := hp.mem_iff.2 (h.mem_values_iff.2 (hid ▸ hg))
      have := List.find?_eq_none.1 hf t ht
      simp [hid] at this

theorem insert (h : Filed tasks) {t : Task} (ht : Store.kept t = t) :
    Filed (tasks.insert t.id t) := by
  constructor
  · intro k t' hk
    rw [Table.get?_insert] at hk
    split at hk
    · rename_i hkid
      cases hk
      exact hkid.symm
    · exact h.id_eq hk
  · intro k t' hk
    rw [Table.get?_insert] at hk
    split at hk
    · cases hk
      exact ht
    · exact h.kept_eq hk

theorem erase (h : Filed tasks) (id : String) : Filed (tasks.erase id) := by
  constructor
  · intro k t hk
    rw [Table.get?_erase] at hk
    split at hk
    · cases hk
    · exact h.id_eq hk
  · intro k t hk
    rw [Table.get?_erase] at hk
    split at hk
    · cases hk
    · exact h.kept_eq hk

theorem render_eq (h : Filed tasks) (heq : ∀ k, tasks'.get? k = tasks.get? k) :
    Store.render tasks'.values = Store.render tasks.values :=
  (Store.render_eq_of_perm (Table.values_perm_of_get?_eq fun k => (heq k).symm) h.nodup_ids).symm

end Filed

namespace Store

theorem saveWith_congr {ts ts' : List Task} (h : render ts' = render ts) (fails : Step → Bool)
    (process : Nat) (fs : Files) (p : Path) :
    saveWith fails process fs p ts' = saveWith fails process fs p ts := by
  simp only [saveWith, h]

theorem find?_load_of_saveWith {tasks : Table String Task} (h : Filed tasks)
    {fails : Step → Bool} {process : Nat} {fs : Files} {p : Path}
    (hs : (saveWith fails process fs p tasks.values).2 = .ok ()) (k : String) :
    (load (saveWith fails process fs p tasks.values).1 p).find? (·.id = k) = tasks.get? k := by
  rw [load_eq_of_saveWith (Prod.ext rfl hs), h.map_kept_values]
  exact h.find?_eq (Task.sorted_perm _) k

end Store

namespace Service

variable {φ σ : Type} [Fleet φ σ] {s s' : Service φ} {m : Moment}

/-- The file of a service holds its tasks. -/
structure Mirrored (s : Service φ) : Prop extends Filed s.tasks where
  find?_load : ∀ k, (Store.load s.files s.options.path).find? (·.id = k) = s.tasks.get? k

/-- Two services have the same tasks, files and clusters. -/
structure Alike (s s' : Service φ) : Prop where
  options_eq : s'.options = s.options
  files_eq : s'.files = s.files
  fleet_eq : s'.fleet = s.fleet
  get?_eq : ∀ k, s'.tasks.get? k = s.tasks.get? k

/-! ### Starting -/

theorem restore_frame (m : Moment) (s : Service φ) (t : Task) :
    (restore m s t).options = s.options ∧ (restore m s t).files = s.files ∧
      (restore m s t).fleet = s.fleet ∧
      ∀ k, (restore m s t).tasks.get? k =
        (s.tasks.get? k).or (if t.id = k then some t else none) := by
  have hput : ∀ s₁ : Service φ, s₁.tasks = s.tasks → s.tasks.get? t.id = none → ∀ k,
      (s₁.put t).tasks.get? k = (s.tasks.get? k).or (if t.id = k then some t else none) := by
    intro s₁ hs hnone k
    rw [put, Table.get?_insert, hs]
    by_cases hk : k = t.id
    · subst hk
      simp [hnone]
    · simp [hk, Ne.symm hk]
  unfold restore
  split
  · rename_i hc
    obtain ⟨t', ht'⟩ := (Table.contains_iff _ _).1 hc
    refine ⟨rfl, rfl, rfl, fun k => ?_⟩
    split
    · rename_i hk
      rw [← hk, ht']
      rfl
    · simp
  · rename_i hc
    have hnone : s.tasks.get? t.id = none := by simpa [Table.contains] using hc
    split
    · exact ⟨rfl, rfl, rfl, hput _ rfl hnone⟩
    · exact ⟨rfl, rfl, rfl, hput _ rfl hnone⟩

theorem foldl_restore_frame (m : Moment) (ts : List Task) (s : Service φ) :
    (ts.foldl (restore m) s).options = s.options ∧ (ts.foldl (restore m) s).files = s.files ∧
      (ts.foldl (restore m) s).fleet = s.fleet ∧
      ∀ k, (ts.foldl (restore m) s).tasks.get? k = (s.tasks.get? k).or (ts.find? (·.id = k)) := by
  induction ts generalizing s with
  | nil => exact ⟨rfl, rfl, rfl, by simp⟩
  | cons t ts ih =>
    obtain ⟨ho, hf, hφ, hk⟩ := restore_frame m s t
    obtain ⟨iho, ihf, ihφ, ihk⟩ := ih (restore m s t)
    refine ⟨iho.trans ho, ihf.trans hf, ihφ.trans hφ, fun k => ?_⟩
    rw [List.foldl_cons, ihk, hk, Option.or_assoc]
    by_cases hid : t.id = k <;> simp [hid]

theorem start_frame (site : Site φ) (owner : Nat) (options : Options) (m : Moment) :
    (start site owner options m).options = options ∧
      (start site owner options m).files = site.files ∧
      (start site owner options m).fleet = site.fleet ∧
      ∀ k, (start site owner options m).tasks.get? k =
        (Store.load site.files options.path).find? (·.id = k) :=
  foldl_restore_frame m _ (blank site owner options)

theorem mirrored_start (site : Site φ) (owner : Nat) (options : Options) (m : Moment) :
    Mirrored (start site owner options m) := by
  obtain ⟨ho, hf, -, hk⟩ := start_frame site owner options m
  refine ⟨⟨?_, ?_⟩, ?_⟩
  · intro k t ht
    rw [hk] at ht
    simpa using List.find?_some ht
  · intro k t ht
    rw [hk] at ht
    exact Store.kept_of_mem_load (List.mem_of_find?_eq_some ht)
  · intro k
    rw [hf, ho, hk]

theorem Alike.restarted (a : Alike s s') (hs : Mirrored s) (m : Moment) (engine : Engine Job)
    (owner : Nat) : Alike s (s'.restarted m engine owner) := by
  obtain ⟨ho, hf, hφ, hk⟩ := start_frame ⟨engine, s'.files, s'.fleet⟩ owner s'.options m
  refine ⟨ho.trans a.options_eq, hf.trans a.files_eq, hφ.trans a.fleet_eq, fun k => ?_⟩
  rw [← hs.find?_load k, ← a.files_eq, ← a.options_eq]
  exact hk k

/-! ### What calls have in common -/

theorem Alike.refl (s : Service φ) : Alike s s :=
  ⟨rfl, rfl, rfl, fun _ => rfl⟩

theorem Alike.contains_eq (a : Alike s s') (id : String) :
    s'.tasks.contains id = s.tasks.contains id := by
  rw [Table.contains, Table.contains, a.get?_eq]

theorem Alike.validate_eq (a : Alike s s') (m : Moment) (d : Definition) :
    s'.validate m d = s.validate m d := by
  rw [validate, validate, a.options_eq, a.fleet_eq]

theorem Alike.put (a : Alike s s') (t : Task) : Alike (s.put t) (s'.put t) where
  options_eq := a.options_eq
  files_eq := a.files_eq
  fleet_eq := a.fleet_eq
  get?_eq k := by
    rw [Service.put, Service.put, Table.get?_insert, Table.get?_insert, a.get?_eq]

theorem Alike.persist (a : Alike s s') (h : Filed s.tasks) (m : Moment) :
    Alike (s.persist m) (s'.persist m) where
  options_eq := a.options_eq
  files_eq := by
    simp only [Service.persist]
    rw [a.options_eq, a.files_eq, Store.saveWith_congr (h.render_eq a.get?_eq)]
  fleet_eq := a.fleet_eq
  get?_eq := a.get?_eq

theorem mirrored_persist (h : Filed s.tasks)
    (hs : (Store.saveWith m.fails s.options.process s.files s.options.path s.tasks.values).2 =
      .ok ()) : Mirrored (s.persist m) :=
  ⟨h, Store.find?_load_of_saveWith h hs⟩

theorem kept_views (s : Service φ) (ts : List Task) :
    (Task.sorted (ts.map s.view)).map Store.kept = Task.sorted (ts.map Store.kept) := by
  rw [Task.map_sorted (f := Store.kept) fun _ => ⟨rfl, rfl⟩, List.map_map]
  rfl

theorem Alike.keptList_eq (a : Alike s s') (h : Filed s.tasks) : s'.keptList = s.keptList := by
  have hlist : ∀ s : Service φ, s.keptList = Task.sorted (s.tasks.values.map Store.kept) :=
    fun s => s.kept_views s.tasks.values
  have hp := Table.values_perm_of_get?_eq fun k => (a.get?_eq k).symm
  have hid : ((s.tasks.values.map Store.kept).map Task.id).Nodup := by
    rw [h.map_kept_values]
    exact h.nodup_ids
  rw [hlist, hlist, Task.sorted_eq_of_perm (hp.map Store.kept) hid]

theorem Alike.document_eq (a : Alike s s') : s'.document = s.document := by
  rw [document, document, a.files_eq, a.options_eq]

theorem register_answer {t : Task} (h : unavailable (s.register m t).2 = false) :
    (∃ e, Cron.Schedule.parse m.now t.cron = .error e ∧
      (s.register m t).2 = .error (.rejected e)) ∨
      ∃ schedule k, Cron.Schedule.parse m.now t.cron = .ok schedule ∧
        (s.register m t).2 = .ok k := by
  rcases hr : s.register m t with ⟨s₁, f | k⟩
  · rw [hr] at h
    rcases Registry.register_error_cases (register_eq hr).1 with ⟨reason, rfl⟩ | ⟨e, hp, rfl⟩
    · cases h
    · exact .inl ⟨e, hp, rfl⟩
  · obtain ⟨schedule, hp, -⟩ := Registry.register_ok (register_eq hr).1
    exact .inr ⟨schedule, k, hp, rfl⟩

theorem Alike.register_cases (a : Alike s s') (hs : Mirrored s) {t : Task}
    (h : unavailable (s.register m t).2 = false) (h' : unavailable (s'.register m t).2 = false) :
    ∃ s₁ s₁', Mirrored s₁ ∧ Alike s₁ s₁' ∧ s₁.options = s.options ∧ s₁.files = s.files ∧
      ((∃ e, s.register m t = (s₁, .error e) ∧ s'.register m t = (s₁', .error e)) ∨
        ∃ k k', s.register m t = (s₁, .ok k) ∧ s'.register m t = (s₁', .ok k')) := by
  refine ⟨(s.register m t).1, (s'.register m t).1, ⟨hs.toFiled, hs.find?_load⟩,
    ⟨a.options_eq, a.files_eq, a.fleet_eq, a.get?_eq⟩, rfl, rfl, ?_⟩
  rcases register_answer h with ⟨e, hp, hr⟩ | ⟨schedule, k, hp, hr⟩
  · rcases register_answer h' with ⟨e', hp', hr'⟩ | ⟨_, _, hp', -⟩
    · rw [hp] at hp'
      cases hp'
      exact .inl ⟨_, Prod.ext rfl hr, Prod.ext rfl hr'⟩
    · rw [hp] at hp'
      cases hp'
  · rcases register_answer h' with ⟨_, hp', -⟩ | ⟨_, k', -, hr'⟩
    · rw [hp] at hp'
      cases hp'
    · exact .inr ⟨k, k', Prod.ext rfl hr, Prod.ext rfl hr'⟩

theorem Alike.unregister (a : Alike s s') (id : String) :
    Alike (s.unregister id) (s'.unregister id) :=
  ⟨a.options_eq, a.files_eq, a.fleet_eq, a.get?_eq⟩

theorem Mirrored.unregister (hs : Mirrored s) (id : String) : Mirrored (s.unregister id) :=
  ⟨hs.toFiled, hs.find?_load⟩

theorem Alike.reinstate (a : Alike s s') (t : Task) :
    Alike (s.reinstate m t) (s'.reinstate m t) := by
  unfold Service.reinstate
  split
  · exact ⟨a.options_eq, a.files_eq, a.fleet_eq, a.get?_eq⟩
  · exact a

theorem Mirrored.reinstate (hs : Mirrored s) (t : Task) : Mirrored (s.reinstate m t) := by
  unfold Service.reinstate
  split
  · exact ⟨hs.toFiled, hs.find?_load⟩
  · exact hs

theorem settle_frame (s : Service φ) (r : Record) :
    ((s.conclude r).settle r.taskId).options = s.options ∧
      ((s.conclude r).settle r.taskId).files = s.files ∧
      ((s.conclude r).settle r.taskId).fleet = s.fleet ∧
      ((s.conclude r).settle r.taskId).tasks = s.tasks := by
  unfold settle
  split
  · exact ⟨rfl, rfl, rfl, rfl⟩
  · exact ⟨rfl, rfl, rfl, rfl⟩

theorem Alike.ended (a : Alike s s') (r : Record) :
    Alike ((s.conclude r).settle r.taskId) ((s'.conclude r).settle r.taskId) := by
  obtain ⟨ho, hf, hφ, ht⟩ := settle_frame s r
  obtain ⟨ho', hf', hφ', ht'⟩ := settle_frame s' r
  constructor
  · rw [ho, ho', a.options_eq]
  · rw [hf, hf', a.files_eq]
  · rw [hφ, hφ', a.fleet_eq]
  · rw [ht, ht']
    exact a.get?_eq

theorem Mirrored.ended (hs : Mirrored s) (r : Record) :
    Mirrored ((s.conclude r).settle r.taskId) := by
  obtain ⟨ho, hf, -, ht⟩ := settle_frame s r
  refine ⟨?_, ?_⟩
  · rw [ht]
    exact hs.toFiled
  · rw [ho, hf, ht]
    exact hs.find?_load

end Service

end Snapshots
