import Mathlib.Data.List.Nodup
import Snapshots.Proofs.Service.Listing
import Snapshots.Proofs.Service.Lockstep
import Snapshots.Proofs.Timer.Watch

/-! # Previews come true

A preview reads the expressions of the tasks anew, and a timer goes on from the due times that it
keeps. If all enabled tasks are registered and nothing is due, a timer that makes a pass at every
second of a span comes to exactly the runs that a preview of the span lists. Main statement:
`RunBy.preview_comes_true`.
-/

namespace Snapshots

open Cron Timer Time

/-- The runs that a timer comes to when it makes a pass at each of some instants. -/
def Timer.Loop.runs (l : Loop Job) (us : List Instant) : List UpcomingRun :=
  (l.watch us).map fun (u, _, job) => ⟨job.task.id, job.task.name, u⟩

namespace Service

variable {φ σ : Type} [Fleet φ σ] {s : Service φ} {m : Moment} {n : Instant}

/-! ### Runs by an instant -/

theorem readBy_register (hs : s.engine.ReadBy n) (hm : m.now ≤ n) {s' : Service φ} {t : Task}
    {r : Answer} (hr : s.register m t = (s', r)) : s'.engine.ReadBy n := by
  cases hr
  exact hs.registerIn hm s.handles t.id t.cron (s.jobOf t)

theorem readBy_unregister (hs : s.engine.ReadBy n) (id : String) :
    (s.unregister id).engine.ReadBy n :=
  hs.unregisterIn s.handles id

theorem readBy_create (hs : s.engine.ReadBy n) (hm : m.now ≤ n) (d : Definition)
    (createdBy : String) : (s.create m d createdBy).1.engine.ReadBy n := by
  rcases s.create_cases m d createdBy with
    ⟨e, -, hc, -⟩ | ⟨-, -, ⟨s', e, hr, hc, -⟩ | ⟨s', h, hr, hc, -⟩⟩
  · rw [hc]
    exact hs
  · rw [hc]
    exact readBy_register hs hm hr
  · have hs' := readBy_register hs hm hr
    rw [hc]
    exact hs'

theorem readBy_update (hs : s.engine.ReadBy n) (hm : m.now ≤ n) (id : String) (d : Definition) :
    (s.update m id d).1.engine.ReadBy n := by
  rcases s.update_cases m id d with
    ⟨e, -, hu, -⟩ | ⟨previous, -, -, ⟨-, ⟨s', e, hr, hu, -⟩ | ⟨s', h, hr, hu, -⟩⟩ | ⟨-, hu, -⟩⟩
  · rw [hu]
    exact hs
  · rw [hu]
    have hs' := readBy_register hs hm hr
    unfold reinstate
    split
    · exact readBy_register hs' hm rfl
    · exact hs'
  · have hs' := readBy_register hs hm hr
    rw [hu]
    exact hs'
  · rw [hu]
    exact readBy_unregister hs id

theorem readBy_toggle (hs : s.engine.ReadBy n) (hm : m.now ≤ n) (id : String) :
    (s.toggle m id).1.engine.ReadBy n := by
  rcases s.toggle_cases m id with
    ⟨-, ht, -⟩ | ⟨previous, -, ⟨-, ⟨s', e, hr, ht, -⟩ | ⟨s', h, hr, ht, -⟩⟩ | ⟨-, ht, -⟩⟩
  · rw [ht]
    exact hs
  · rw [ht]
    exact readBy_register hs hm hr
  · have hs' := readBy_register hs hm hr
    rw [ht]
    exact hs'
  · rw [ht]
    exact readBy_unregister hs id

theorem readBy_stamp (hs : s.engine.ReadBy n) {id : String} {firedAt : Instant} {s' : Service φ}
    {t : Task} (h : s.stamp m id firedAt = some (s', t)) : s'.engine.ReadBy n := by
  obtain ⟨_, -, ht⟩ := Option.map_eq_some_iff.1 h
  cases ht
  exact hs

theorem readBy_perform (hs : s.engine.ReadBy n) (hm : m.now ≤ n) (d : Deed φ) :
    (s.perform m d).engine.ReadBy n := by
  cases d with
  | create d createdBy => exact readBy_create hs hm d createdBy
  | update id d => exact readBy_update hs hm id d
  | toggle id => exact readBy_toggle hs hm id
  | delete id =>
    change (s.delete m id).1.engine.ReadBy n
    unfold Service.delete
    split
    · exact readBy_unregister (s := { s with tasks := s.tasks.erase id }) hs id
    · exact hs
  | run id =>
    change (s.run m id).1.engine.ReadBy n
    unfold Service.run
    split
    · exact hs
    · exact readBy_stamp hs ‹_›
  | fire job =>
    change (s.runJob m job).1.engine.ReadBy n
    unfold Service.runJob
    split
    · exact hs
    · exact readBy_stamp hs ‹_›
  | work fleet history => exact hs

/-- What a run can come to if no reading of the clock is later than an instant. -/
inductive RunBy (n : Instant) (site : Site φ) (owner : Nat) (options : Options) :
    List Task → Service φ → Prop where

  | load : RunBy n site owner options (Store.load site.files options.path)
      (blank site owner options)

  | restore {t : Task} {ts : List Task} {s : Service φ} {m : Moment} :
      RunBy n site owner options (t :: ts) s → m.now ≤ n →
      RunBy n site owner options ts (restore m s t)

  | turn {ts : List Task} {s : Service φ} {t : Turn} :
      RunBy n site owner options ts s → (∀ now ∈ t.reading?, now ≤ n) →
      RunBy n site owner options ts (s.turn t)

  | perform {s : Service φ} {m : Moment} (d : Deed φ) :
      RunBy n site owner options [] s → m.now ≤ n →
      RunBy n site owner options [] (s.perform m d)

namespace RunBy

variable {site : Site φ} {owner : Nat} {options : Options} {ts : List Task}

theorem run (r : RunBy n site owner options ts s) : ∃ as, Run site owner options ts as s := by
  induction r with
  | load => exact ⟨_, .load⟩
  | restore _ _ ih =>
    obtain ⟨as, ih⟩ := ih
    exact ⟨_, ih.restore _⟩
  | turn _ _ ih =>
    obtain ⟨as, ih⟩ := ih
    exact ⟨as, ih.turn _⟩
  | perform d _ _ ih =>
    obtain ⟨as, ih⟩ := ih
    exact ⟨_, ih.perform _ d⟩

theorem readBy (hsite : site.engine.ReadBy n) (r : RunBy n site owner options ts s) :
    s.engine.ReadBy n := by
  induction r with
  | load => exact hsite
  | @restore t ts s m _ hm ih =>
    unfold Service.restore
    split
    · exact ih
    · split
      · have hs' := readBy_register (t := t) ih hm rfl
        exact hs'
      · exact ih
  | turn _ ht ih => exact ih.turn ht
  | perform d _ hm ih => exact readBy_perform ih hm d

end RunBy

/-! ### What a preview lists -/

theorem mem_runsOf_iff {t : Task} {schedule : Schedule} {now stop : Instant} {run : UpcomingRun}
    (hp : Schedule.parse now t.cron = .ok schedule) (hn : Pattern.Searchable n) :
    run ∈ runsOf n n stop t ↔ run.taskId = t.id ∧ run.taskName = t.name ∧
      schedule.pattern.Matches run.time ∧ n < run.time ∧ run.time ≤ stop := by
  rw [mem_runsOf_iff_exists hn]
  refine and_congr_right fun _ => and_congr_right fun _ => ?_
  constructor
  · rintro ⟨schedule', hp', hspan⟩
    obtain rfl := Schedule.parse_unique hp hp'
    exact hspan
  · rintro ⟨hm, hlt, hle⟩
    -- There is a fire time to come, so the expression is still a schedule.
    obtain ⟨hlen, hexp, hpattern, -⟩ := Schedule.parse_eq_ok_iff.1 hp
    have hne : schedule.pattern.next? n ≠ none :=
      fun hnone => ((Schedule.ordered_of_parse hp).next?_eq_none_iff hn).1 hnone _ hm hlt
    refine ⟨schedule, Schedule.parse_eq_ok_iff.2 ⟨hlen, hexp, hpattern, ?_⟩, hm, hlt, hle⟩
    exact Option.isSome_iff_ne_none.2 hne

/-! ### What a timer comes to -/

theorem mem_runs_iff {l : Loop Job}
    (hcurrent : ∀ {h e}, l.entries.get? h = some e → Loop.Entry.CurrentAt n e) {stop : Instant}
    {run : UpcomingRun} : run ∈ l.runs (wholeSeconds n stop) ↔
      ∃ h e, l.entries.get? h = some e ∧ run.taskId = e.job.task.id ∧
        run.taskName = e.job.task.name ∧ e.schedule.pattern.Matches run.time ∧
        n < run.time ∧ run.time ≤ stop := by
  have hwatch : ∀ {u h job}, (u, h, job) ∈ l.watch (wholeSeconds n stop) ↔ _ :=
    Loop.mem_watch_iff hcurrent (secondsAfter_chain ..)
  simp only [Loop.runs, List.mem_map, Prod.exists]
  constructor
  · rintro ⟨u, h, job, hx, rfl⟩
    obtain ⟨hu, e, he, rfl, hm⟩ := hwatch.1 hx
    exact ⟨h, e, he, rfl, rfl, hm, (mem_wholeSeconds_iff.1 hu).2⟩
  · rintro ⟨h, e, he, hid, hname, hm, hspan⟩
    refine ⟨run.time, h, e.job, hwatch.2 ⟨?_, e, he, rfl, hm⟩, by rw [← hid, ← hname]⟩
    exact mem_wholeSeconds_iff.2 ⟨hm.1, hspan⟩

section Live

variable {as : List Answer} {l : Loop Job} {h : Handle} {e : Timer.Entry Job}

theorem InLockstep.of_live (lk : s.InLockstep as) (hl : s.engine = .looping l)
    (he : l.entries.get? h = some e) : s.handles.get? e.job.task.id = some h ∧
      ∃ t, s.tasks.get? e.job.task.id = some t ∧ t.enabled = true ∧
        Serves s.owner t (e.schedule, e.job) := by
  have hlookup : s.engine.lookup h = some (e.schedule, e.job) := by
    rw [hl, Engine.lookup, he]
    rfl
  obtain ⟨k, hk⟩ := lk.owned hlookup
  obtain ⟨t, entry, ht, hen, hentry, hserves⟩ := lk.registered hk
  obtain rfl := Option.some.inj (hlookup.symm.trans hentry)
  have hid : e.job.task.id = k := hserves.id_eq.trans (lk.id_eq ht)
  rw [hid]
  exact ⟨hk, t, ht, hen, hserves⟩

theorem InLockstep.live_of_registered (lk : s.InLockstep as) (hl : s.engine = .looping l)
    {k : String} {t : Task} (ht : s.tasks.get? k = some t) (hk : s.handles.get? k = some h) :
    ∃ e, l.entries.get? h = some e ∧ Serves s.owner t (e.schedule, e.job) := by
  obtain ⟨t', entry, ht', -, hentry, hserves⟩ := lk.registered hk
  obtain rfl := Option.some.inj (ht.symm.trans ht')
  rw [hl, Engine.lookup] at hentry
  obtain ⟨e, he, rfl⟩ := Option.map_eq_some_iff.1 hentry
  exact ⟨e, he, hserves⟩

theorem nodup_runs (lk : s.InLockstep as) (hl : s.engine = .looping l)
    (hcurrent : ∀ {h e}, l.entries.get? h = some e → Loop.Entry.CurrentAt n e) (stop : Instant) :
    ((l.runs (wholeSeconds n stop)).map fun r => (r.taskId, r.time)).Nodup := by
  have hnodup := List.pairwise_map.1 (l.nodup_watch (nodup_wholeSeconds n stop))
  have hlive : ∀ {x}, x ∈ l.watch (wholeSeconds n stop) →
      s.handles.get? x.2.2.task.id = some x.2.1 := by
    rintro ⟨u, h, job⟩ hx
    obtain ⟨-, e, he, rfl, -⟩ := (Loop.mem_watch_iff hcurrent (secondsAfter_chain ..)).1 hx
    exact (lk.of_live hl he).1
  rw [Loop.runs, List.map_map]
  refine List.pairwise_map.2 (hnodup.imp_of_mem fun {x y} hx hy hne heq => hne ?_)
  obtain ⟨hid, htime⟩ := Prod.mk.inj heq
  have hhandle := hlive hx
  rw [show x.2.2.task.id = y.2.2.task.id from hid, hlive hy] at hhandle
  rw [show x.1 = y.1 from htime, Option.some.inj hhandle]

end Live

/-- If all enabled tasks are registered with a timer that has nothing due now, then what the timer
comes to with a pass at every second of some hours is what a preview of these hours lists, each run
once, and all of them of enabled tasks. -/
theorem RunBy.preview_comes_true {site : Site φ} {owner : Nat} {options : Options}
    (hsize : site.engine.size = 0) (hsite : site.engine.ReadBy n)
    (r : RunBy n site owner options [] s) {l : Loop Job} (hl : s.engine = .looping l)
    (hdue : l.due n = [])
    (hregistered : ∀ {k t}, s.tasks.get? k = some t → t.enabled = true →
      s.handles.contains k = true)
    {hours : Nat} {stop : Instant} (hstop : n.addHours? hours = some stop) :
    ∃ runs, s.preview? n n hours = some runs ∧ (l.runs (wholeSeconds n stop)).Perm runs ∧
      (runs.map fun r => (r.taskId, r.time)).Nodup ∧
      ∀ run ∈ runs, ∃ t, s.tasks.get? run.taskId = some t ∧ t.enabled = true := by
  obtain ⟨as, hrun⟩ := r.run
  have lk := hrun.inLockstep hsize
  have hcurrent : ∀ {h e}, l.entries.get? h = some e → Loop.Entry.CurrentAt n e := by
    obtain ⟨l', hl', hreadBy⟩ := r.readBy hsite
    rw [hl] at hl'
    cases hl'
    exact hreadBy.current_of_due_eq_nil hdue
  obtain ⟨runs, hruns⟩ : ∃ runs, s.preview? n n hours = some runs := by
    rw [preview?, hstop]
    exact ⟨_, rfl⟩
  have hmem : ∀ run, run ∈ l.runs (wholeSeconds n stop) ↔ run ∈ runs := by
    intro run
    rw [mem_runs_iff hcurrent, mem_preview_iff hstop hruns]
    constructor
    · rintro ⟨h, e, he, hid, hname, hfires⟩
      obtain ⟨-, t, ht, hen, hserves⟩ := lk.of_live hl he
      obtain ⟨now, hp⟩ := hserves.schedule
      refine ⟨_, t, ht, hen, (mem_runsOf_iff hp (hcurrent he).searchable).2 ⟨?_, ?_, hfires⟩⟩
      · exact hid.trans hserves.id_eq
      · exact hname.trans hserves.name_eq
    · rintro ⟨k, t, ht, hen, hm⟩
      obtain ⟨h, hk⟩ := (Table.contains_iff ..).1 (hregistered ht hen)
      obtain ⟨e, he, hserves⟩ := lk.live_of_registered hl ht hk
      obtain ⟨now, hp⟩ := hserves.schedule
      obtain ⟨hid, hname, hfires⟩ := (mem_runsOf_iff hp (hcurrent he).searchable).1 hm
      exact ⟨h, e, he, hid.trans hserves.id_eq.symm, hname.trans hserves.name_eq.symm, hfires⟩
  have hpairs := nodup_runs lk hl hcurrent stop
  have hperm : (l.runs (wholeSeconds n stop)).Perm runs :=
    (List.perm_ext_iff_of_nodup (.of_map _ hpairs) (nodup_preview lk.id_eq hruns)).2 hmem
  refine ⟨runs, hruns, hperm, (hperm.map _).nodup_iff.1 hpairs, fun run hm => ?_⟩
  obtain ⟨k, t, ht, hen, hrun⟩ := (mem_preview_iff hstop hruns).1 hm
  refine ⟨t, ?_, hen⟩
  rw [taskId_of_mem_runsOf hrun, lk.id_eq ht]
  exact ht

end Service

namespace Sample

def loopSite : Site Cluster.Memory :=
  { site with engine := .looping .new }

def paired : Service Cluster.Memory :=
  (((Service.blank loopSite 0 options).perform moment (.create definition "alice")).perform moment
    (.create { definition with name := "cache" } "bob")).perform moment
      (.toggle "prod-cache-1714566896")

theorem runBy_paired : Service.RunBy moment.now loopSite 0 options [] paired := by
  have hload : Store.load loopSite.files options.path = [] := by decide +kernel
  have r : Service.RunBy moment.now loopSite 0 options _ (Service.blank loopSite 0 options) := .load
  rw [hload] at r
  exact ((r.perform _ (le_refl _)).perform _ (le_refl _)).perform _
    (le_refl _)

end Sample

/-- Of two tasks, the one that is enabled runs at the two full hours of a span. -/
theorem Service.RunBy.preview_comes_true_sample : ∃ (l : Loop Job) (stop : Instant)
    (runs : List UpcomingRun), Sample.paired.engine = .looping l ∧ l.due Sample.moment.now = [] ∧
      Sample.moment.now.addHours? 2 = some stop ∧ Sample.paired.tasks.size = 2 ∧
      Sample.paired.preview? Sample.moment.now Sample.moment.now 2 = some runs ∧
      runs.length = 2 ∧ (l.runs (wholeSeconds Sample.moment.now stop)).Perm runs := by
  have hsite : Sample.loopSite.engine.ReadBy Sample.moment.now := ⟨.new, rfl, .new _⟩
  let l : Loop Job := match Sample.paired.engine with
    | .looping l => l
    | .manual _ => .new
  let stop := (Sample.moment.now.addHours? 2).getD default
  have hl : Sample.paired.engine = .looping l := by
    obtain ⟨l', hl', -⟩ := Sample.runBy_paired.readBy hsite
    simp only [l, hl']
  have hdue : l.due Sample.moment.now = [] := by decide +kernel
  have hregistered : ∀ {k t}, Sample.paired.tasks.get? k = some t → t.enabled = true →
      Sample.paired.handles.contains k = true := by
    intro k t ht he
    have hall : ∀ x ∈ Sample.paired.tasks.entries, x.2.enabled = true →
        Sample.paired.handles.contains x.1 = true := by decide +kernel
    exact hall (k, t) ((Table.mem_entries_iff ..).2 ht) he
  have hstop : Sample.moment.now.addHours? 2 = some stop := by decide +kernel
  obtain ⟨runs, hruns, hperm, -, -⟩ := Service.RunBy.preview_comes_true rfl hsite
    Sample.runBy_paired hl hdue hregistered hstop
  refine ⟨l, stop, runs, hl, hdue, hstop, by decide +kernel, hruns, ?_, hperm⟩
  rw [Service.preview?, hstop] at hruns
  cases hruns
  rw [List.length_mergeSort]
  decide +kernel

end Snapshots
