import Snapshots.Proofs.Cron.Exact
import Snapshots.Proofs.Service.Faithful
import Snapshots.Proofs.Table
import Snapshots.Proofs.Time.Order
import Snapshots.Proofs.Time.Span
import Snapshots.Service.Preview

/-! # What a preview lists

A preview lists the fire times of all enabled tasks in a span that begins after its start and ends
with its end. A list without repetitions that is in order is told by its members. So the order of
the tasks does not matter, and the lists of two spans that adjoin make up the list of both.
-/

namespace Snapshots

open Cron Time

namespace UpcomingRun

def key (r : UpcomingRun) : Instant × String :=
  (r.time, r.taskId)

/-- By time, and by task at the same time. -/
def Before (a b : UpcomingRun) : Prop :=
  a.time < b.time ∨ (a.time = b.time ∧ a.taskId < b.taskId)

variable {a b c : UpcomingRun} {l l' : List UpcomingRun}

theorem listedBefore_iff : a.listedBefore b = true ↔ Precedes a.key b.key := by
  simp [listedBefore, Precedes, key]

theorem before_iff : a.Before b ↔ a.listedBefore b = true ∧ a.key ≠ b.key := by
  rw [listedBefore_iff]
  exact strictlyPrecedes_iff (a := a.key) (b := b.key)

theorem mergeSort_pairwise (l : List UpcomingRun) :
    (l.mergeSort listedBefore).Pairwise fun a b => a.listedBefore b = true := by
  refine List.pairwise_mergeSort (fun a b c hab hbc => ?_) (fun a b => ?_) l
  · rw [listedBefore_iff] at *
    exact hab.trans hbc
  · rw [Bool.or_eq_true, listedBefore_iff, listedBefore_iff]
    exact Precedes.total ..

theorem nodup_of_pairwise (hl : l.Pairwise Before) : l.Nodup := by
  refine hl.imp ?_
  rintro a b hab rfl
  exact (before_iff.1 hab).2 rfl

theorem eq_of_mem_iff (hl : l.Pairwise Before) (hl' : l'.Pairwise Before)
    (h : ∀ r, r ∈ l ↔ r ∈ l') : l = l' := by
  have hperm : l.Perm l' :=
    (List.perm_ext_iff_of_nodup (nodup_of_pairwise hl) (nodup_of_pairwise hl')).2 h
  refine List.Perm.eq_of_pairwise ?_ hl hl' hperm
  intro a b _ _ hab hba
  rw [before_iff, listedBefore_iff] at hab hba
  exact absurd (hab.1.antisymm hba.1) hab.2

end UpcomingRun

namespace Service

variable {φ : Type} {s s' : Service φ} {now start stop : Instant} {hours : Nat} {t : Task}
  {run : UpcomingRun} {runs : List UpcomingRun}

theorem taskId_of_mem_runsOf (h : run ∈ runsOf now start stop t) : run.taskId = t.id := by
  unfold runsOf at h
  split at h
  · cases h
  · obtain ⟨u, -, rfl⟩ := List.mem_map.1 h
    rfl

theorem mem_runsOf_iff_exists (hstart : Pattern.Searchable start) :
    run ∈ runsOf now start stop t ↔ run.taskId = t.id ∧ run.taskName = t.name ∧
      ∃ schedule, Schedule.parse now t.cron = .ok schedule ∧
        schedule.pattern.Matches run.time ∧ start < run.time ∧ run.time ≤ stop := by
  unfold runsOf
  split
  · rename_i error herror
    simp [herror]
  · rename_i schedule hp
    simp only [List.mem_map, (Schedule.ordered_of_parse hp).mem_between_iff hstart]
    constructor
    · rintro ⟨u, hu, rfl⟩
      exact ⟨rfl, rfl, schedule, hp, hu⟩
    · rintro ⟨hid, hname, schedule', hp', hu⟩
      obtain rfl := Schedule.parse_unique hp hp'
      exact ⟨run.time, hu, by rw [← hid, ← hname]⟩

theorem nodup_keys_runsOf (now start stop : Instant) (t : Task) :
    ((runsOf now start stop t).map UpcomingRun.key).Nodup := by
  unfold runsOf
  split
  · exact .nil
  · rename_i schedule hp
    rw [List.map_map]
    refine List.Nodup.map (fun u v huv => congrArg Prod.fst huv) ?_
    refine ((Schedule.ordered_of_parse hp).between_pairwise start stop).imp ?_
    rintro u v hlt rfl
    exact lt_irrefl _ hlt

theorem nodup_keys_runs {ts : List Task} (hid : (ts.map Task.id).Nodup) (now start stop : Instant) :
    ((ts.flatMap (runsOf now start stop)).map UpcomingRun.key).Nodup := by
  rw [List.map_flatMap, List.nodup_flatMap]
  refine ⟨fun t _ => nodup_keys_runsOf now start stop t, ?_⟩
  refine (List.pairwise_map.1 hid).imp ?_
  intro t t' hne k hk hk'
  obtain ⟨r, hr, rfl⟩ := List.mem_map.1 hk
  obtain ⟨r', hr', hkey⟩ := List.mem_map.1 hk'
  apply hne
  rw [← taskId_of_mem_runsOf hr, ← taskId_of_mem_runsOf hr']
  exact (congrArg Prod.snd hkey).symm

theorem preview?_eq (hstop : start.addHours? hours = some stop) :
    s.preview? now start hours =
      some (((s.tasks.values.filter (·.enabled)).flatMap (runsOf now start stop)).mergeSort
        UpcomingRun.listedBefore) := by
  rw [preview?, hstop]
  rfl

theorem exists_preview?_iff :
    (∃ runs, s.preview? now start hours = some runs) ↔ start.yearAfter hours ≤ 262142 := by
  rw [← Instant.exists_addHours?_iff_yearAfter]
  constructor
  · rintro ⟨runs, hruns⟩
    obtain ⟨stop, hstop, -⟩ := Option.bind_eq_some_iff.1 hruns
    exact ⟨stop, hstop⟩
  · rintro ⟨stop, hstop⟩
    exact ⟨_, preview?_eq hstop⟩

theorem preview_pairwise (hid : ∀ {k t}, s.tasks.get? k = some t → t.id = k)
    (hruns : s.preview? now start hours = some runs) : runs.Pairwise UpcomingRun.Before := by
  obtain ⟨stop, hstop, -⟩ := Option.bind_eq_some_iff.1 hruns
  rw [preview?_eq hstop] at hruns
  cases hruns
  have hkeys : ((s.tasks.values.filter (·.enabled)).map Task.id).Nodup :=
    (Table.nodup_map_values hid).sublist (List.filter_sublist.map _)
  have hnodup := ((List.mergeSort_perm _ UpcomingRun.listedBefore).map _).nodup_iff.2
    (nodup_keys_runs hkeys now start stop)
  refine (List.Pairwise.and (UpcomingRun.mergeSort_pairwise _) (List.pairwise_map.1 hnodup)).imp ?_
  exact UpcomingRun.before_iff.2

theorem nodup_preview (hid : ∀ {k t}, s.tasks.get? k = some t → t.id = k)
    (hruns : s.preview? now start hours = some runs) : runs.Nodup :=
  UpcomingRun.nodup_of_pairwise (preview_pairwise hid hruns)

theorem mem_preview_iff (hstop : start.addHours? hours = some stop)
    (hruns : s.preview? now start hours = some runs) : run ∈ runs ↔
      ∃ k t, s.tasks.get? k = some t ∧ t.enabled = true ∧ run ∈ runsOf now start stop t := by
  rw [preview?_eq hstop] at hruns
  cases hruns
  simp only [List.mem_mergeSort, List.mem_flatMap, List.mem_filter, Table.mem_values_iff]
  constructor
  · rintro ⟨t, ⟨⟨k, hk⟩, he⟩, hm⟩
    exact ⟨k, t, hk, he, hm⟩
  · rintro ⟨k, t, hk, he, hm⟩
    exact ⟨t, ⟨⟨k, hk⟩, he⟩, hm⟩

/-- A run of an enabled task that is to come after a start and not after an end, by the schedule
that the expression of the task is now. -/
def Upcoming (s : Service φ) (now start stop : Instant) (run : UpcomingRun) : Prop :=
  ∃ t schedule, s.tasks.get? run.taskId = some t ∧ t.enabled = true ∧ run.taskName = t.name ∧
    Schedule.parse now t.cron = .ok schedule ∧ schedule.pattern.Matches run.time ∧
    start < run.time ∧ run.time ≤ stop

theorem mem_preview_iff_upcoming (hid : ∀ {k t}, s.tasks.get? k = some t → t.id = k)
    (hstart : Pattern.Searchable start) (hstop : start.addHours? hours = some stop)
    (hruns : s.preview? now start hours = some runs) :
    run ∈ runs ↔ s.Upcoming now start stop run := by
  rw [mem_preview_iff hstop hruns]
  constructor
  · rintro ⟨k, t, ht, he, hm⟩
    obtain ⟨hrun, hname, schedule, hp, hspan⟩ := (mem_runsOf_iff_exists hstart).1 hm
    rw [hid ht] at hrun
    rw [← hrun] at ht
    exact ⟨t, schedule, ht, he, hname, hp, hspan⟩
  · rintro ⟨t, schedule, ht, he, hname, hp, hspan⟩
    have hm : run ∈ runsOf now start stop t :=
      (mem_runsOf_iff_exists hstart).2 ⟨(hid ht).symm, hname, schedule, hp, hspan⟩
    exact ⟨_, t, ht, he, hm⟩

/-- If the words of its expression are each a field, a task has runs at the whole seconds from 1970
to 2100 that its six fields allow. -/
theorem upcoming_iff_fires {A : Field → Set Nat} {id : String} {schedule : Schedule} {u : Instant}
    (ht : s.tasks.get? id = some t) (he : t.enabled = true)
    (hx : Spelled A (Text.words t.cron.toList)) (hp : Schedule.parse now t.cron = .ok schedule) :
    s.Upcoming now start stop ⟨id, t.name, u⟩ ↔
      (Fires A u ∧ 1970 ≤ u.date.year ∧ u.date.year ≤ 2100) ∧ start < u ∧ u ≤ stop := by
  rw [← (hx.spells_of_parse hp).1.matches_iff]
  constructor
  · rintro ⟨t', schedule', ht', -, -, hp', hm, hspan⟩
    obtain rfl : t = t' := Option.some.inj (ht.symm.trans ht')
    obtain rfl := Schedule.parse_unique hp hp'
    exact ⟨hm, hspan⟩
  · rintro ⟨hm, hspan⟩
    exact ⟨t, schedule, ht, he, rfl, hp, hm, hspan⟩

theorem upcoming_iff_or {mid : Instant} (hstart : start ≤ mid) (hstop : mid ≤ stop) :
    s.Upcoming now start stop run ↔ s.Upcoming now start mid run ∨ s.Upcoming now mid stop run := by
  constructor
  · rintro ⟨t, schedule, ht, he, hname, hp, hm, hlt, hle⟩
    by_cases hmid : run.time ≤ mid
    · exact .inl ⟨t, schedule, ht, he, hname, hp, hm, hlt, hmid⟩
    · exact .inr ⟨t, schedule, ht, he, hname, hp, hm, not_le.1 hmid, hle⟩
  · rintro (⟨t, schedule, ht, he, hname, hp, hm, hlt, hle⟩ |
      ⟨t, schedule, ht, he, hname, hp, hm, hlt, hle⟩)
    · exact ⟨t, schedule, ht, he, hname, hp, hm, hlt, le_trans hle hstop⟩
    · exact ⟨t, schedule, ht, he, hname, hp, hm, lt_of_le_of_lt hstart hlt, hle⟩

theorem Upcoming.congr (h : ∀ k, s'.tasks.get? k = s.tasks.get? k) :
    s'.Upcoming now start stop run ↔ s.Upcoming now start stop run := by
  simp only [Upcoming, h]

theorem preview?_congr (hid : ∀ {k t}, s.tasks.get? k = some t → t.id = k)
    (hstart : Pattern.Searchable start) (hstop : start.addHours? hours = some stop)
    (hsame : ∀ k, s'.tasks.get? k = s.tasks.get? k) :
    s'.preview? now start hours = s.preview? now start hours := by
  have hid' : ∀ {k t}, s'.tasks.get? k = some t → t.id = k := fun ht => hid (hsame _ ▸ ht)
  obtain ⟨runs, hruns⟩ : ∃ runs, s.preview? now start hours = some runs := ⟨_, preview?_eq hstop⟩
  obtain ⟨runs', hruns'⟩ : ∃ runs, s'.preview? now start hours = some runs :=
    ⟨_, preview?_eq hstop⟩
  rw [hruns, hruns']
  apply congrArg some
  apply UpcomingRun.eq_of_mem_iff (preview_pairwise hid' hruns') (preview_pairwise hid hruns)
  intro run
  rw [mem_preview_iff_upcoming hid hstart hstop hruns,
    mem_preview_iff_upcoming hid' hstart hstop hruns', Upcoming.congr hsame]

theorem preview_eq_append {mid : Instant} {a b : Nat} {runs₁ runs₂ : List UpcomingRun}
    (hid : ∀ {k t}, s.tasks.get? k = some t → t.id = k) (hstart : Pattern.Searchable start)
    (hstop : start.addHours? (a + b) = some stop) (ha : start.addHours? a = some mid)
    (hruns : s.preview? now start (a + b) = some runs)
    (hruns₁ : s.preview? now start a = some runs₁) (hruns₂ : s.preview? now mid b = some runs₂) :
    runs = runs₁ ++ runs₂ := by
  have hb := Instant.addHours?_add hstop ha
  have hfirst := Instant.le_of_addHours? ha
  have hsecond := Instant.le_of_addHours? hb
  have hmem₁ {run} : run ∈ runs₁ ↔ s.Upcoming now start mid run :=
    mem_preview_iff_upcoming hid hstart ha hruns₁
  have hmem₂ {run} : run ∈ runs₂ ↔ s.Upcoming now mid stop run :=
    mem_preview_iff_upcoming hid (hstart.mono hfirst) hb hruns₂
  apply UpcomingRun.eq_of_mem_iff (preview_pairwise hid hruns)
  · refine List.pairwise_append.2 ⟨preview_pairwise hid hruns₁, preview_pairwise hid hruns₂, ?_⟩
    -- What the first part ends with is before all of the second, which begins after it.
    intro r₁ hr₁ r₂ hr₂
    obtain ⟨-, -, -, -, -, -, -, -, hle⟩ := hmem₁.1 hr₁
    obtain ⟨-, -, -, -, -, -, -, hlt, -⟩ := hmem₂.1 hr₂
    exact .inl (lt_of_le_of_lt hle hlt)
  · intro run
    rw [mem_preview_iff_upcoming hid hstart hstop hruns, List.mem_append, hmem₁, hmem₂,
      upcoming_iff_or hfirst hsecond]

/-- A preview of tasks that stand under their identities, from the year 0 on, is in order of time
and task, and lists nothing twice. It lists exactly the instants in the span, after its start and
not after its end, that the schedule of an enabled task matches, years included: those from 1970 to
2100 that the six fields of its expression allow. A task whose expression is no schedule now has
none. The order of the tasks does not matter. A preview of some hours in two parts is the preview of
the first part and then that of the second. -/
theorem preview_lists_each_once (s : Service φ)
    (hid : ∀ {k t}, s.tasks.get? k = some t → t.id = k) (now : Instant) {start stop : Instant}
    (hyear : 0 ≤ start.date.year) {hours : Nat} (hstop : start.addHours? hours = some stop) :
    ∃ runs, s.preview? now start hours = some runs ∧ runs.Pairwise UpcomingRun.Before ∧
      (∀ run, run ∈ runs ↔ s.Upcoming now start stop run) ∧
      (∀ id t schedule A u, s.tasks.get? id = some t → t.enabled = true →
        Spelled A (Text.words t.cron.toList) → Schedule.parse now t.cron = .ok schedule →
        (⟨id, t.name, u⟩ ∈ runs ↔
          (Fires A u ∧ 1970 ≤ u.date.year ∧ u.date.year ≤ 2100) ∧ start < u ∧ u ≤ stop)) ∧
      (∀ s' : Service φ, (∀ k, s'.tasks.get? k = s.tasks.get? k) →
        s'.preview? now start hours = some runs) ∧
      ∀ a b, a + b = hours → ∃ mid runs₁ runs₂, start.addHours? a = some mid ∧
        s.preview? now start a = some runs₁ ∧ s.preview? now mid b = some runs₂ ∧
        runs = runs₁ ++ runs₂ := by
  have hsearch := Pattern.searchable_of_year hyear
  obtain ⟨runs, hruns⟩ : ∃ runs, s.preview? now start hours = some runs := ⟨_, preview?_eq hstop⟩
  have hpairwise := preview_pairwise hid hruns
  have hmem : ∀ run, run ∈ runs ↔ s.Upcoming now start stop run :=
    fun run => mem_preview_iff_upcoming hid hsearch hstop hruns
  refine ⟨runs, hruns, hpairwise, hmem, ?_, ?_, ?_⟩
  · intro id t schedule A u ht he hx hp
    rw [hmem]
    exact upcoming_iff_fires ht he hx hp
  · intro s' hsame
    exact (preview?_congr hid hsearch hstop hsame).trans hruns
  · rintro a b rfl
    obtain ⟨mid, ha⟩ := Instant.exists_addHours? hstop
    have hb := Instant.addHours?_add hstop ha
    obtain ⟨runs₁, hruns₁⟩ : ∃ runs₁, s.preview? now start a = some runs₁ := ⟨_, preview?_eq ha⟩
    obtain ⟨runs₂, hruns₂⟩ : ∃ runs₂, s.preview? now mid b = some runs₂ := ⟨_, preview?_eq hb⟩
    exact ⟨mid, runs₁, runs₂, ha, hruns₁, hruns₂,
      preview_eq_append hid hsearch hstop ha hruns hruns₁ hruns₂⟩

end Service

namespace Sample

def both : Service Cluster.Memory :=
  created.perform moment (.create { definition with name := "cache" } "bob")

def noon : Instant :=
  (Instant.ofParts? 1714564800 0).getD default

def onTheHour : Field → Set Nat
  | .second | .minute => {0}
  | f => Set.Icc f.low f.high

theorem spelled_onTheHour : Spelled onTheHour (Text.words definition.cron.toList) := by
  refine ⟨['*'], rfl, .cons ?_ (.cons ?_ (.cons ?_ (.cons ?_ (.cons ?_ (.cons ?_ .nil)))))⟩
  · exact .item (.number (by decide) (by decide) (by decide))
  · exact .item (.number (by decide) (by decide) (by decide))
  all_goals exact .item (.range .all)

end Sample

/-- The runs at the end of the first hour are listed with that hour, and not with the next. -/
theorem Service.preview_lists_each_once_noon : ∃ stop mid runs runs₁ runs₂,
    0 ≤ Sample.noon.date.year ∧ Sample.noon.addHours? 2 = some stop ∧
      Sample.noon.addHours? 1 = some mid ∧
      Sample.both.preview? Sample.moment.now Sample.noon 2 = some runs ∧
      Sample.both.preview? Sample.moment.now Sample.noon 1 = some runs₁ ∧
      Sample.both.preview? Sample.moment.now mid 1 = some runs₂ ∧
      runs.Pairwise UpcomingRun.Before ∧ runs = runs₁ ++ runs₂ ∧
      runs₁.length = 2 ∧ runs₂.length = 2 ∧ ⟨Sample.id, "db", mid⟩ ∈ runs₁ ∧
      Fires Sample.onTheHour mid ∧ 1970 ≤ mid.date.year ∧ mid.date.year ≤ 2100 := by
  have hfaithful : Sample.both.Faithful := (Sample.run_created.perform Sample.moment _).faithful
  have hyear : 0 ≤ Sample.noon.date.year := by decide +kernel
  have hstop : Sample.noon.addHours? 2 = some ((Sample.noon.addHours? 2).getD default) := by
    decide +kernel
  obtain ⟨runs, hruns, hpairwise, hmem, hfires, -, hsplit⟩ := Service.preview_lists_each_once
    Sample.both hfaithful.id_eq Sample.moment.now hyear hstop
  obtain ⟨mid, runs₁, runs₂, hmid, hruns₁, hruns₂, happend⟩ := hsplit 1 1 rfl
  have hrest := Instant.addHours?_add (a := 1) (b := 1) hstop hmid
  obtain ⟨hlength₁, hlength₂, hlast⟩ :
      runs₁.length = 2 ∧ runs₂.length = 2 ∧ ⟨Sample.id, "db", mid⟩ ∈ runs₁ := by
    obtain rfl : (Sample.noon.addHours? 1).getD default = mid := by
      rw [hmid]
      rfl
    rw [Service.preview?_eq hmid] at hruns₁
    rw [Service.preview?_eq hrest] at hruns₂
    cases hruns₁
    cases hruns₂
    simp only [List.length_mergeSort, List.mem_mergeSort]
    decide +kernel
  have hlisted : ⟨Sample.id, "db", mid⟩ ∈ runs := happend ▸ List.mem_append_left runs₂ hlast
  obtain ⟨t, schedule, ht, he, hname, hp, -⟩ := (hmem _).1 hlisted
  have hget : Sample.both.tasks.get? Sample.id =
      some (.ofDefinition Sample.definition "alice" Sample.moment.now) := by
    decide +kernel
  obtain rfl := Option.some.inj (hget.symm.trans ht)
  have htimes := (hfires _ _ schedule _ mid ht he Sample.spelled_onTheHour hp).1 hlisted
  exact ⟨_, mid, runs, runs₁, runs₂, hyear, hstop, hmid, hruns, hruns₁, hruns₂, hpairwise, happend,
    hlength₁, hlength₂, hlast, htimes.1⟩

end Snapshots
