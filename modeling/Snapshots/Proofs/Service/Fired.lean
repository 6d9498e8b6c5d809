import Snapshots.Proofs.Service.Faithful
import Snapshots.Proofs.Service.Restart

/-! # A fired entry does what a run does

A timer fires the task of an entry as it was when the entry was made, and a caller has a task run as
it is now. The two differ in the time of the last firing at most, which no firing reads. So both
lead to the same tasks, file, clusters and history, and to the same record. A service that is
restarted is the start of another run, at a site with the file of the first and with any timer, be
it the one that still holds the entries of the first. Main statement: `Run.fire_eq_run`.
-/

namespace Snapshots

open Firing Timer Time

namespace Firing.Flight

variable {φ σ : Type} [Fleet φ σ]

/-- The firing with another time of the last firing in its task. -/
def restamp (last : Option Instant) (f : Flight σ) : Flight σ :=
  { f with task := { f.task with lastExecuted := last } }

theorem step_restamp (last : Option Instant) (fleet : φ) (f : Flight σ) (i : Nat) :
    (f.restamp last).step fleet i = ((f.step fleet i).1, (f.step fleet i).2.restamp last) := by
  have hspec : (f.restamp last).spec = f.spec := rfl
  have hunits : (f.restamp last).units = f.units := rfl
  unfold step
  rw [hspec, hunits]
  split <;> rfl

theorem task_step (fleet : φ) (f : Flight σ) (i : Nat) : (f.step fleet i).2.task = f.task := by
  unfold step
  split <;> rfl

end Firing.Flight

namespace Service

variable {φ σ : Type} [Fleet φ σ] {s : Service φ}

theorem workThrough_restamp (last : Option Instant) (fleet : φ) (f : Flight σ)
    (works : List (Work φ)) : workThrough fleet (f.restamp last) works =
      ((workThrough fleet f works).1, (workThrough fleet f works).2.restamp last) := by
  induction works generalizing fleet f with
  | nil => rfl
  | cons work works ih =>
    cases work with
    | step unit =>
      simp only [workThrough, Flight.step_restamp]
      exact ih ..
    | change f => exact ih ..

def finish (s : Service φ) (f : Flight σ) (works : List (Work φ)) (finishedAt : Instant) :
    Service φ × Option Record :=
  let (fleet, f) := workThrough s.fleet f works
  let s := { s with fleet }
  match f.record? finishedAt with
  | some r => ((s.conclude r).settle r.taskId, some r)
  | none => (s, none)

/-- The service after its timer fired an entry and some work was done on the firing, and the record
of the firing if it has ended. An entry of another service does nothing to this one. -/
def fire (s : Service φ) (m : Moment) (h : Handle) (works : List (Work φ))
    (finishedAt : Instant) : Service φ × Option Record :=
  match s.engine.job? h with
  | none => (s, none)
  | some job =>
    if job.owner ≠ s.owner then (s, none)
    else match s.runJob m job with
      | (s, none) => (s, none)
      | (s, some f) => s.finish f works finishedAt

theorem finish_restamp (last : Option Instant) (s : Service φ) (f : Flight σ)
    (works : List (Work φ)) (finishedAt : Instant) :
    s.finish (f.restamp last) works finishedAt = s.finish f works finishedAt := by
  unfold finish
  rw [workThrough_restamp]
  rfl

theorem call_run_eq {s' : Service φ} {m : Moment} {id : String} {f : Flight σ}
    (hr : s.run m id = (s', .ok f)) (works : List (Work φ)) (finishedAt : Instant) :
    s.call m (.run id works finishedAt) =
      ((s'.finish f works finishedAt).1, .fired (s'.finish f works finishedAt).2) := by
  simp only [call, hr, finish]
  cases (workThrough s'.fleet f works).2.record? finishedAt <;> rfl

theorem fire_eq {s' : Service φ} {m : Moment} {h : Handle} {job : Job} {f : Flight σ}
    (hjob : s.engine.job? h = some job) (howner : job.owner = s.owner)
    (hr : s.runJob m job = (s', some f)) (works : List (Work φ)) (finishedAt : Instant) :
    s.fire m h works finishedAt = s'.finish f works finishedAt := by
  simp [fire, hjob, howner, hr]

theorem task_workThrough (fleet : φ) (f : Flight σ) (works : List (Work φ)) :
    (workThrough fleet f works).2.task = f.task := by
  induction works generalizing fleet f with
  | nil => rfl
  | cons work works ih =>
    cases work with
    | step unit => exact (ih ..).trans (f.task_step fleet unit)
    | change g => exact ih ..

theorem latest?_finish {f : Flight σ} {works : List (Work φ)} {finishedAt : Instant} {r : Record}
    (ht : s.tasks.contains f.task.id = true) (hr : (s.finish f works finishedAt).2 = some r) :
    (s.finish f works finishedAt).1.history.latest? f.task.id = some r := by
  generalize hs' : ({ s with fleet := (workThrough s.fleet f works).1 } : Service φ) = s'
  cases hrec : (workThrough s.fleet f works).2.record? finishedAt with
  | none =>
    simp only [finish, hrec] at hr
    cases hr
  | some r' =>
    have hfinish : s.finish f works finishedAt =
        ((s'.conclude r').settle r'.taskId, some r') := by
      simp only [finish, hrec, hs']
    rw [hfinish] at hr ⊢
    cases hr
    have hid : r.taskId = f.task.id :=
      (Flight.of_record? hrec).1.trans (congrArg Task.id (task_workThrough s.fleet f works))
    have hthere : (s'.conclude r).tasks.contains r.taskId = true := by
      rw [hid, ← hs']
      exact ht
    rw [settle, if_pos hthere, ← hid]
    exact History.latest?_record ..

theorem Faithful.entry (f : Faithful s) {id : String} {h : Handle}
    (hid : s.handles.get? id = some h) :
    ∃ t entry, s.tasks.get? id = some t ∧ s.engine.job? h = some entry.2 ∧
      Serves s.owner t entry := by
  obtain ⟨entry, hlookup⟩ := f.sound.live hid
  have hslot : s.slot? id = some entry := by
    rw [slot?, Registry.slot?, hid]
    exact hlookup
  obtain ⟨t, ht, -, hserves⟩ := f.serves hslot
  refine ⟨t, entry, ht, ?_, hserves⟩
  rw [Engine.job?_eq, hlookup]
  rfl

/-- A run of a task and the job of its entry start the same firing, but for the time of the last
firing in its task. -/
theorem run_and_runJob {id : String} {t : Task} {entry : Cron.Schedule × Job}
    (ht : s.tasks.get? id = some t) (hid : t.id = id) (hserves : Serves s.owner t entry)
    (m : Moment) : ∃ (s' : Service φ) (f : Flight σ),
      s.run m id = (s', .ok (f.restamp (some m.now))) ∧ s.runJob m entry.2 = (s', some f) ∧
        f.task.id = id ∧ s'.tasks.contains id = true := by
  generalize hstamped : ({ t with lastExecuted := some m.now } : Task) = stamped
  generalize hs' : (s.put stamped).persist m = s'
  have hjobId : entry.2.task.id = id := hserves.id_eq.trans hid
  have hstamp : s.stamp m id m.now = some (s', stamped) := by
    rw [stamp, ht, ← hs', ← hstamped]
    rfl
  refine ⟨s', s'.launch entry.2.task m.now, ?_, ?_, hjobId, ?_⟩
  · rw [Service.run, hstamp, ← hstamped, ← hserves.task_eq]
    rfl
  · rw [Service.runJob, hjobId, hstamp]
  · have hstampedId : stamped.id = id := hstamped ▸ hid
    rw [← hs', Table.contains_iff]
    refine ⟨stamped, ?_⟩
    rw [← hstampedId]
    exact Table.get?_insert_self ..

/-- Whatever a run comes to, and whatever its timer held before: the entry of a task differs from
the task in the time of the last firing at most, and when the timer fires the entry at a moment this
leads to the same service as when the task is run then, and to the same record, which is the latest
in the history. -/
theorem Run.fire_eq_run {site : Site φ} {owner : Nat} {options : Options} {as : List Answer}
    (r : Run site owner options [] as s) {id : String} {h : Handle}
    (hid : s.handles.get? id = some h) (m : Moment) (works : List (Work φ))
    (finishedAt : Instant) :
    (∃ t job, s.tasks.get? id = some t ∧ s.engine.job? h = some job ∧
      { job.task with lastExecuted := t.lastExecuted } = t) ∧
    s.call m (.run id works finishedAt) =
      ((s.fire m h works finishedAt).1, .fired (s.fire m h works finishedAt).2) ∧
    ∀ r, (s.fire m h works finishedAt).2 = some r →
      (s.fire m h works finishedAt).1.history.latest? id = some r := by
  have f := r.faithful
  obtain ⟨t, ⟨schedule, job⟩, ht, hjob, hserves⟩ := f.entry hid
  obtain ⟨s', flight, hrun, hrunJob, hflight, hthere⟩ :=
    run_and_runJob ht (f.id_eq ht) hserves m
  have hfire := fire_eq hjob hserves.owner_eq hrunJob works finishedAt
  refine ⟨⟨t, job, ht, hjob, hserves.task_eq⟩, ?_, fun r hr => ?_⟩
  · rw [call_run_eq hrun, finish_restamp, hfire]
  · rw [hfire] at hr ⊢
    rw [← hflight] at hthere ⊢
    exact latest?_finish hthere hr

end Service

namespace Sample

def stale : Service Cluster.Memory :=
  (started.perform moment (.create definition "alice")).perform moment (.run id)

theorem run_stale : ∃ as, Service.Run equipped 0 options [] as stale := by
  obtain ⟨as, r⟩ := Service.run_start equipped 0 options moment
  exact ⟨_, (r.perform moment (.create definition "alice")).perform moment (.run id)⟩

end Sample

/-- The entry is out of date, and the timer makes the snapshot that a run makes. -/
theorem Service.Run.fire_eq_run_stale : ∃ (works : List (Work Cluster.Memory)) (r : Record),
    Sample.stale.handles.get? Sample.id = some ⟨1⟩ ∧
      (Sample.stale.engine.job? ⟨1⟩).map Job.task ≠ Sample.stale.tasks.get? Sample.id ∧
      r.status = .success ∧
      Sample.stale.call Sample.moment (.run Sample.id works Sample.moment.now) =
        ((Sample.stale.fire Sample.moment ⟨1⟩ works Sample.moment.now).1, .fired (some r)) ∧
      (Sample.stale.fire Sample.moment ⟨1⟩ works Sample.moment.now).1.history.latest? Sample.id =
        some r := by
  let works : List (Work Cluster.Memory) := [.step 0, .step 0, .step 0]
  obtain ⟨as, hrun⟩ := Sample.run_stale
  have hid : Sample.stale.handles.get? Sample.id = some ⟨1⟩ := by decide +kernel
  obtain ⟨-, hcall, hlatest⟩ :=
    Service.Run.fire_eq_run hrun hid Sample.moment works Sample.moment.now
  have hstatus : (Sample.stale.fire Sample.moment ⟨1⟩ works Sample.moment.now).2.map
      Record.status = some .success := by decide +kernel
  obtain ⟨r, hr, hsuccess⟩ := Option.map_eq_some_iff.1 hstatus
  rw [hr] at hcall
  exact ⟨works, r, hid, by decide +kernel, hsuccess, hcall, hlatest r hr⟩

end Snapshots
