import Snapshots.Proofs.Service.Orphans
import Snapshots.Proofs.Store.Failure

/-! # The file mirrors the tasks

Calls and jobs save the tasks while they hold the lock, and a save may fail. A journal of a course
has an entry for every save, with the tasks at that moment and what became of the save. The file
holds the tasks of the last save that succeeded. Main statement: `Journal.mirrored`.
-/

namespace Snapshots

namespace Service.Busy

variable {φ σ : Type} [Fleet φ σ] {w w' w₁ : Busy φ σ} {m m₀ : Moment}

def persist (w : Busy φ σ) (m : Moment) : Busy φ σ :=
  { w with toService := w.toService.persist m }

/-- The steps that save, up to the save: what they do whether it succeeds or not. -/
inductive Saving : Busy φ σ → Busy φ σ → Prop

  | commit {w c t} : w.holder? = some (.commit c t) →
      Saving w { w with toService := w.toService.put t, holder? := none }

  | strike {w id} : w.holder? = some (.strike id) →
      Saving w { w with toService := w.toService.unregister id, holder? := some (.forget id) }

  | run {w t} (id : String) (firedAt : Time.Instant) : w.holder? = none →
      w.tasks.get? id = some t →
      Saving w
        { w with
          toService := w.toService.put { t with lastExecuted := some firedAt }
          firings := w.firings ++ [.stamped { t with lastExecuted := some firedAt } firedAt] }

  | runJob {w t jobs job jobs'} (firedAt : Time.Instant) : w.holder? = none →
      w.jobs = jobs ++ job :: jobs' → job.owner = w.owner →
      w.tasks.get? job.task.id = some t →
      Saving w
        { w with
          toService := w.toService.put { t with lastExecuted := some firedAt }
          jobs := jobs ++ jobs'
          firings := w.firings ++ [.stamped job.task firedAt] }

theorem Saving.step (h : Saving w w₁) : ∃ c?, ∀ m, Step w c? (w₁.persist m) := by
  cases h with
  | @commit c t hx => exact ⟨some c, fun m => .proceed m hx rfl⟩
  | strike hx => exact ⟨none, fun m => .proceed m hx rfl⟩
  | run id firedAt hx ht =>
    refine ⟨_, fun m => .run m id firedAt hx ?_⟩
    rw [Service.stamp, ht]
    rfl
  | @runJob t jobs job jobs' firedAt hx hjobs howner ht =>
    refine ⟨_, fun m => .runJob (t := { t with lastExecuted := some firedAt }) m firedAt hx hjobs
      howner ?_⟩
    rw [Service.stamp, ht]
    rfl

/-- What the tasks are after a save, by what the call that holds the lock is about to do: a task
that is deleted is gone before the save of that. -/
def standing (tasks : Table String Task) : Option Holder → Table String Task
  | some (.strike id) => tasks.erase id
  | _ => tasks

/-- A step that does not save keeps the file, and changes the tasks only for a deletion. -/
structure Quiet (w w' : Busy φ σ) : Prop where
  options_eq : w'.options = w.options
  files_eq : w'.files = w.files
  standing_eq : ∀ {tasks}, w.tasks = standing tasks w.holder? →
    w'.tasks = standing tasks w'.holder?

theorem standing_of_ne {x? : Option Holder} (h : ∀ id, x? ≠ some (.strike id))
    (saved : Table String Task) : standing saved x? = saved := by
  unfold standing
  split
  · exact absurd rfl (h _)
  · rfl

theorem standing_enter {r : Request} {tasks : Table String Task} {x : Holder}
    (h : r.enter tasks m = some x) (saved : Table String Task) :
    standing saved (some x) = saved := by
  cases r with
  | create d createdBy now =>
    simp only [Request.enter] at h
    split at h
    · cases h
    · cases h
      rfl
  | update id d =>
    obtain ⟨_, -, rfl⟩ := Option.map_eq_some_iff.1 h
    rfl
  | toggle id =>
    obtain ⟨_, -, rfl⟩ := Option.map_eq_some_iff.1 h
    rfl
  | delete id =>
    obtain ⟨_, -, rfl⟩ := Option.map_eq_some_iff.1 h
    rfl

omit [Fleet φ σ] in
theorem Quiet.of_tasks_eq {x : Holder} {s : Service φ} {x? : Option Holder}
    (hx : w.holder? = some x) (hoptions : s.options = w.options) (hfiles : s.files = w.files)
    (htasks : s.tasks = w.tasks) (hold : ∀ tasks, standing tasks (some x) = tasks)
    (hnew : ∀ tasks, standing tasks x? = tasks) :
    Quiet w { w with toService := s, holder? := x? } := by
  refine ⟨hoptions, hfiles, fun {tasks} hs => ?_⟩
  rw [hx, hold] at hs
  exact htasks.trans (hs.trans (hnew tasks).symm)

omit [Fleet φ σ] in
theorem saving_or_quiet_act {x : Holder} {s : Service φ} {x? : Option Holder} {c? : Option Change}
    (hx : w.holder? = some x) (h : x.act w.toService m = (s, x?, c?)) :
    (∃ w₁, Saving w w₁ ∧ ({ w with toService := s, holder? := x? } : Busy φ σ) = w₁.persist m) ∨
      Quiet w { w with toService := s, holder? := x? } := by
  cases x with
  | commit c t =>
    cases h
    exact .inl ⟨_, .commit hx, rfl⟩
  | strike id =>
    cases h
    exact .inl ⟨_, .strike hx, rfl⟩
  | withdraw c t previous? =>
    cases h
    refine .inr (.of_tasks_eq hx rfl rfl rfl (fun _ => rfl) fun tasks => ?_)
    split <;> rfl
  | install c t previous? =>
    obtain ⟨rfl, ⟨k, hr, rfl⟩ | ⟨e, hr, rfl⟩⟩ := Holder.act_install h
    · rw [(register_eq hr).2]
      exact .inr (.of_tasks_eq hx rfl rfl rfl (fun _ => rfl) fun _ => rfl)
    · rw [(register_eq hr).2]
      refine .inr (.of_tasks_eq hx rfl rfl rfl (fun _ => rfl) fun tasks => ?_)
      cases previous? <;> rfl
  | reinstate previous =>
    obtain ⟨handles, engine, hact⟩ := (Holder.reinstate previous).act_eq w.toService m
    cases h
    simp only [Holder.act] at hact
    rw [hact]
    exact .inr (.of_tasks_eq hx rfl rfl rfl (fun _ => rfl) fun _ => rfl)
  | remove id =>
    cases h
    refine .inr ⟨rfl, rfl, fun {tasks} hs => ?_⟩
    rw [hx] at hs
    exact congrArg (·.erase id) hs
  | forget id =>
    cases h
    exact .inr (.of_tasks_eq hx rfl rfl rfl (fun _ => rfl) fun _ => rfl)

/-- Every step saves or leaves the file alone. -/
theorem Step.saving_or_quiet {c? : Option Change} (h : Step w c? w') :
    (∃ w₁ m, Saving w w₁ ∧ w' = w₁.persist m) ∨ Quiet w w' := by
  cases h with
  | proceed m hx hact =>
    rcases saving_or_quiet_act hx hact with ⟨w₁, hs, heq⟩ | hq
    · exact .inl ⟨w₁, m, hs, heq⟩
    · exact .inr hq
  | @run s t m id firedAt hx hstamp =>
    obtain ⟨t, ht, hs⟩ := Option.map_eq_some_iff.1 hstamp
    cases hs
    exact .inl ⟨_, m, .run id firedAt hx ht, rfl⟩
  | @runJob s t jobs job jobs' m firedAt hx hjobs howner hstamp =>
    obtain ⟨t, ht, hs⟩ := Option.map_eq_some_iff.1 hstamp
    cases hs
    exact .inl ⟨_, m, .runJob firedAt hx hjobs howner ht, rfl⟩
  | enter m r hx henter =>
    refine .inr ⟨rfl, rfl, fun {tasks} hs => ?_⟩
    rw [hx] at hs
    exact hs.trans (standing_enter henter tasks).symm
  | turn t => exact .inr ⟨rfl, rfl, id⟩
  | _ => exact .inr ⟨rfl, rfl, id⟩

/-! ### Journals -/

/-- A save: the tasks, and what became of it. -/
structure Save where
  tasks : Table String Task
  result : Except Store.SaveError Unit

def Save.succeeded (e : Save) : Bool :=
  e.result.isOk

theorem Save.succeeded_iff {e : Save} : e.succeeded = true ↔ e.result = .ok () := by
  unfold Save.succeeded
  cases e.result with
  | ok _ => exact ⟨fun _ => rfl, fun _ => rfl⟩
  | error _ => exact ⟨nofun, nofun⟩

def save (w : Busy φ σ) (m : Moment) : Save :=
  ⟨w.tasks, (Store.saveWith m.fails w.options.process w.files w.options.path w.tasks.values).2⟩

/-- What can have happened since a service started, with all saves, the latest first. A step that
comes to what a save comes to has an entry. -/
inductive Journal (site : Site φ) (owner : Nat) (options : Options) (m₀ : Moment) :
    List Save → Busy φ σ → Prop

  | start : Journal site owner options m₀ [] (start site owner options m₀)

  | save {saves w w₁} (m : Moment) : Journal site owner options m₀ saves w → Saving w w₁ →
      Journal site owner options m₀ (w₁.save m :: saves) (w₁.persist m)

  | quiet {saves w c? w'} : Journal site owner options m₀ saves w → Step w c? w' →
      (∀ w₁ m, Saving w w₁ → w' ≠ w₁.persist m) → Journal site owner options m₀ saves w'

section

variable {site : Site φ} {owner : Nat} {options : Options} {saves : List Save}

theorem Journal.reached (J : Journal site owner options m₀ saves w) :
    ∃ log, Reached site owner options m₀ log w := by
  induction J with
  | start => exact ⟨[], .refl trivial⟩
  | save m _ hs ih =>
    obtain ⟨log, r⟩ := ih
    obtain ⟨c?, hstep⟩ := hs.step
    exact ⟨_, r.step (hstep m) trivial⟩
  | quiet _ hs _ ih =>
    obtain ⟨log, r⟩ := ih
    exact ⟨_, r.step hs trivial⟩

theorem Reached.journal {log : List Change} (r : Reached site owner options m₀ log w) :
    ∃ saves, Journal site owner options m₀ saves w := by
  refine r.keeps (q := fun _ w => ∃ saves, Journal site owner options m₀ saves w) ⟨[], .start⟩ ?_
  rintro log w c? w' ⟨saves, J⟩ hs
  by_cases h : ∃ w₁ m, Saving w w₁ ∧ w' = w₁.persist m
  · obtain ⟨w₁, m, hsaving, rfl⟩ := h
    exact ⟨_, J.save m hsaving⟩
  · exact ⟨saves, J.quiet hs fun w₁ m hsaving heq => h ⟨w₁, m, hsaving, heq⟩⟩

/-- What a journal tells of the service that it leads to. -/
structure Accounts (options : Options) (saves : List Save) (w : Busy φ σ) : Prop where
  options_eq : w.options = options
  /-- The tasks are those of the latest save, whether it succeeded or not. -/
  tasks_eq : ∀ {e}, saves.head? = some e → w.tasks = standing e.tasks w.holder?
  /-- The file holds the tasks of the last save that succeeded. -/
  read_eq : ∀ {e}, saves.find? Save.succeeded = some e →
    w.files.read options.path = .ok (.text (Store.render e.tasks.values))
  id_eq : ∀ {e}, e ∈ saves → ∀ {k t}, e.tasks.get? k = some t → t.id = k

omit [Fleet φ σ] in
theorem Accounts.quiet (a : Accounts options saves w) (hq : Quiet w w') :
    Accounts options saves w' where
  options_eq := hq.options_eq.trans a.options_eq
  tasks_eq h := hq.standing_eq (a.tasks_eq h)
  read_eq h := by
    rw [hq.files_eq]
    exact a.read_eq h
  id_eq := a.id_eq

omit [Fleet φ σ] in
theorem Saving.frame (h : Saving w w₁) : w₁.options = w.options ∧ w₁.files = w.files ∧
    ∀ id, w₁.holder? ≠ some (.strike id) := by
  cases h <;> refine ⟨rfl, rfl, fun id => ?_⟩ <;> simp_all

omit [Fleet φ σ] in
theorem saveWith_eq (w : Busy φ σ) (m : Moment) :
    Store.saveWith m.fails w.options.process w.files w.options.path w.tasks.values =
      ((w.persist m).files, (w.save m).result) :=
  rfl

omit [Fleet φ σ] in
theorem Accounts.save (a : Accounts options saves w) (h : Saving w w₁) (m : Moment)
    (hid : ∀ {k t}, w₁.tasks.get? k = some t → t.id = k) :
    Accounts options (w₁.save m :: saves) (w₁.persist m) := by
  obtain ⟨hoptions, hfiles, hholder⟩ := h.frame
  have hoptions' : w₁.options = options := hoptions.trans a.options_eq
  have hsave := w₁.saveWith_eq m
  rw [hoptions'] at hsave
  refine ⟨hoptions', fun he => ?_, fun {e} he => ?_, fun {e} hmem => ?_⟩
  · cases he
    exact (standing_of_ne hholder w₁.tasks).symm
  · cases hr : (w₁.save m).result with
    | ok _ =>
      rw [hr] at hsave
      rw [List.find?_cons_of_pos (Save.succeeded_iff.2 hr)] at he
      cases he
      exact Store.read_of_saveWith hsave
    | error error =>
      have hfailed : ¬ (w₁.save m).succeeded = true := by
        rw [Save.succeeded_iff, hr]
        nofun
      rw [hr] at hsave
      rw [List.find?_cons_of_neg hfailed] at he
      have hread := a.read_eq he
      rw [← hfiles] at hread
      obtain ⟨there, hp, -⟩ := Files.read_eq_ok_iff.1 hread
      exact (Store.read_iff_of_saveWith hsave hp).2 hread
  · rcases List.mem_cons.1 hmem with rfl | hmem
    · exact hid
    · exact a.id_eq hmem

theorem Journal.accounts (J : Journal site owner options m₀ saves w) :
    Accounts options saves w := by
  induction J with
  | start =>
    exact ⟨(start_frame site owner options m₀).1, nofun, nofun, nofun⟩
  | save m J hs ih =>
    obtain ⟨log, r⟩ := (J.save m hs).reached
    exact ih.save hs m fun ht => r.tidy.id_eq ht
  | quiet _ hs hquiet ih =>
    rcases hs.saving_or_quiet with ⟨w₁, m, hsaving, heq⟩ | hq
    · exact absurd heq (hquiet w₁ m hsaving)
    · exact ih.quiet hq

theorem Journal.read_eq {e : Save} {ts : List Task} (J : Journal site owner options m₀ saves w)
    (he : saves.find? Save.succeeded = some e) (hp : ts.Perm e.tasks.values) :
    w.files.read options.path = .ok (.text (Store.render ts)) := by
  have a := J.accounts
  have hid := Table.nodup_map_values (a.id_eq (List.mem_of_find?_eq_some he))
  rw [Store.render_eq_of_perm hp ((hp.map Task.id).nodup_iff.2 hid)]
  exact a.read_eq he

theorem Journal.load_eq {e : Save} {ts : List Task} (J : Journal site owner options m₀ saves w)
    (he : saves.find? Save.succeeded = some e) (hp : ts.Perm e.tasks.values) :
    Store.load w.files options.path = Task.sorted (ts.map Store.kept) := by
  rw [Store.load, J.read_eq he hp]
  exact Store.parse_render ts

theorem Journal.load_eq_views {e : Save} {ts : List Task}
    (J : Journal site owner options m₀ saves w) (he : saves.head? = some e)
    (hok : e.succeeded = true) (hholder : ∀ id, w.holder? ≠ some (.strike id))
    (hp : ts.Perm w.tasks.values) :
    Store.load w.files options.path = (Task.sorted (ts.map w.view)).map Store.kept := by
  have htasks := (J.accounts.tasks_eq he).trans (standing_of_ne hholder _)
  obtain ⟨saves', rfl⟩ := List.head?_eq_some_iff.1 he
  rw [w.toService.kept_views, J.load_eq (List.find?_cons_of_pos hok) (htasks ▸ hp)]

theorem Journal.load_eq_list {e : Save} (J : Journal site owner options m₀ saves w)
    (he : saves.head? = some e) (hok : e.succeeded = true)
    (hholder : ∀ id, w.holder? ≠ some (.strike id)) :
    Store.load w.files options.path = w.toService.list.map Store.kept :=
  J.load_eq_views he hok hholder (.refl _)

/-- Whatever goes on at the same time and whichever saves fail, the file holds the tasks as they
were right after the step of the last save that succeeded. If the latest save succeeded and no task
is about to be deleted, it loads as the list of the tasks without due times, in the same order,
however the tasks are kept. A save that fails changes nothing but files, and of these only the
temporary one: the file reads as before, if its path led anywhere. And the next save that succeeds
makes the file current again: it loads as the list of the tasks. -/
theorem Journal.mirrored (J : Journal site owner options m₀ saves w) :
    (∀ (e : Save) (ts : List Task), saves.find? Save.succeeded = some e →
      ts.Perm e.tasks.values →
      w.files.read options.path = .ok (.text (Store.render ts)) ∧
      Store.load w.files options.path = Task.sorted (ts.map Store.kept)) ∧
    (∀ e : Save, saves.head? = some e → e.succeeded = true →
      (∀ id, w.holder? ≠ some (.strike id)) →
      Store.load w.files options.path = w.toService.list.map Store.kept ∧
        ∀ ts : List Task, ts.Perm w.tasks.values →
          Store.load w.files options.path = (Task.sorted (ts.map w.view)).map Store.kept) ∧
    (∀ w₁ m error, Saving w w₁ → (w₁.save m).result = .error error →
      w₁.persist m = { w₁ with files := (w₁.persist m).files } ∧
      Files.SparesBut (Store.sibling options.process options.path) w.files (w₁.persist m).files ∧
      ∀ there c, w.files.place options.path = .ok there →
        ((w₁.persist m).files.read options.path = .ok c ↔ w.files.read options.path = .ok c)) ∧
    ∀ w₁ m, Saving w w₁ → (w₁.save m).result = .ok () →
      Store.load (w₁.persist m).files options.path =
        (w₁.persist m).toService.list.map Store.kept ∧
        ∀ ts : List Task, ts.Perm w₁.tasks.values →
          Store.load (w₁.persist m).files options.path =
            (Task.sorted (ts.map (w₁.persist m).view)).map Store.kept := by
  refine ⟨fun e ts he hp => ⟨J.read_eq he hp, J.load_eq he hp⟩, fun e he hok hholder =>
    ⟨J.load_eq_list he hok hholder, fun ts hp => J.load_eq_views he hok hholder hp⟩, ?_, ?_⟩
  · intro w₁ m error hs hr
    obtain ⟨hoptions, hfiles, -⟩ := hs.frame
    have hsave := w₁.saveWith_eq m
    rw [hr, hoptions, J.accounts.options_eq, hfiles] at hsave
    exact ⟨rfl, Store.sparesBut_of_saveWith hsave,
      fun there c hp => Store.read_iff_of_saveWith hsave hp⟩
  · intro w₁ m hs hr
    have J₁ := J.save m hs
    have hok := Save.succeeded_iff.2 hr
    exact ⟨J₁.load_eq_list rfl hok hs.frame.2.2,
      fun ts hp => J₁.load_eq_views rfl hok hs.frame.2.2 hp⟩

end

end Service.Busy

namespace Sample

def unfired : Service.Busy Cluster.Memory Nat :=
  ⟨(started.create moment definition "alice").1, none, [], []⟩

def readOnly : Moment where
  now := (Time.Instant.ofParts? 1714566897 0).getD default
  fails := fun _ => true

def ran (w : Service.Busy Cluster.Memory Nat) (t : Task) (firedAt : Time.Instant) :
    Service.Busy Cluster.Memory Nat :=
  { w with
    toService := w.toService.put { t with lastExecuted := some firedAt }
    firings := w.firings ++ [.stamped { t with lastExecuted := some firedAt } firedAt] }

def firstRun : Service.Busy Cluster.Memory Nat :=
  ran unfired (.ofDefinition definition "alice" moment.now) moment.now

def secondRun : Service.Busy Cluster.Memory Nat :=
  ran (firstRun.persist moment) stamped readOnly.now

end Sample

namespace Service.Busy

open Sample

/-- A run is noted in the file, which then loads as the list of the tasks, and another run only in
the tasks. -/
theorem Journal.mirrored_sample : ∃ (e : Save) (saves : List Save)
    (w w' : Busy Cluster.Memory Nat), e.succeeded = true ∧
    (Journal equipped 0 options moment (e :: saves) w ∧ (∀ id, w.holder? ≠ some (.strike id)) ∧
      w.toService.list.length = 1 ∧
      Store.load w.files options.path = w.toService.list.map Store.kept) ∧
    ∃ e', Journal equipped 0 options moment (e' :: e :: saves) w' ∧ e'.succeeded = false ∧
      w'.tasks.values ≠ e.tasks.values ∧
      w'.files.read options.path = .ok (.text (Store.render e.tasks.values)) := by
  have hstart : Reached equipped 0 options moment [] ⟨started, none, [], []⟩ := .refl trivial
  obtain ⟨saves, J⟩ := Reached.journal (hstart.create moment definition "alice")
  have hget : unfired.tasks.get? id = some (.ofDefinition definition "alice" moment.now) := by
    decide +kernel
  have hget' : (firstRun.persist moment).tasks.get? id = some stamped := by decide +kernel
  have hrun : Saving unfired firstRun := .run id moment.now rfl hget
  have hrun' : Saving (firstRun.persist moment) secondRun := .run id readOnly.now rfl hget'
  have hok : (firstRun.save moment).succeeded = true := by decide +kernel
  have hfailed : (secondRun.save readOnly).succeeded = false := by decide +kernel
  have hunlike : (secondRun.persist readOnly).tasks.values ≠
      (firstRun.save moment).tasks.values := by
    decide +kernel
  have hlength : (firstRun.persist moment).toService.list.length = 1 := by decide +kernel
  have J₁ := J.save moment hrun
  have J₂ := J₁.save readOnly hrun'
  obtain ⟨hload, -⟩ := J₁.mirrored.2.1 _ rfl hok hrun.frame.2.2
  have hfind : (secondRun.save readOnly :: firstRun.save moment :: saves).find? Save.succeeded =
      some (firstRun.save moment) := by
    simp [hok, hfailed]
  obtain ⟨hread, -⟩ := J₂.mirrored.1 _ _ hfind (.refl _)
  exact ⟨_, _, _, _, hok, ⟨J₁, hrun.frame.2.2, hlength, hload⟩, _, J₂, hfailed, hunlike, hread⟩

end Service.Busy

end Snapshots
