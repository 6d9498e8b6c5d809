import Snapshots.Proofs.Service.Orderly
import Snapshots.Service.Host

/-! # Jobs that the timer handed out

A job that was handed out starts a firing if its task is there by then, whether it is enabled or
not. As long as a task is not enabled again, it is fired by the timer at most once for each of its
jobs that had been handed out, and not at all if it is gone.
-/

namespace Snapshots

open Timer

/-- Whether a change is a firing of a task that the timer started. -/
def Change.starts (id : String) : Change → Bool
  | stamped k _ scheduled => scheduled && k = id
  | _ => false

theorem Change.countP_starts (id k : String) (firedAt : Time.Instant) :
    [stamped k firedAt true].countP (starts id) = if k = id then 1 else 0 := by
  simp [starts, List.countP_cons]

namespace Service

variable {φ σ : Type}

theorem Draft.starts_eq {tasks : Table String Task} {c : Change} {t : Task} (h : Draft tasks c t)
    (id : String) : c.starts id = false := by
  cases c with
  | stamped k firedAt scheduled => exact absurd rfl (h.ne_stamped k firedAt scheduled)
  | _ => rfl

namespace Busy

variable {w w' : Busy φ σ}

/-- No task of an identity is enabled. -/
def Off (id : String) (w : Busy φ σ) : Prop :=
  ∀ t, w.tasks.get? id = some t → t.enabled = false

/-- The jobs of a task that were handed out and have not begun. -/
def waiting (w : Busy φ σ) (id : String) : Nat :=
  w.jobs.countP fun job => job.owner = w.owner ∧ job.task.id = id

/-- A call is about to put an enabled task of an identity. -/
def enabling (w : Busy φ σ) (id : String) : Bool :=
  match w.holder? with
  | some (.commit _ t) => t.enabled && t.id = id
  | _ => false

/-- A task is there, and no call is about to enable it. -/
def idle (w : Busy φ σ) (id : String) : Bool :=
  w.tasks.contains id && !w.enabling id

/-- The jobs that can start firings of a task before it is enabled. -/
def pending (w : Busy φ σ) (id : String) : Nat :=
  if w.idle id then w.waiting id else 0

variable {id : String}

theorem pending_le_waiting (w : Busy φ σ) (id : String) : w.pending id ≤ w.waiting id := by
  unfold pending
  split
  · exact Nat.le_refl _
  · exact Nat.zero_le _

theorem pending_le_pending (hj : w'.waiting id ≤ w.waiting id)
    (ht : w'.tasks.contains id = true → w.tasks.contains id = true)
    (he : w.enabling id = true → w'.enabling id = true) : w'.pending id ≤ w.pending id := by
  unfold pending
  split
  · rename_i h
    simp only [idle, Bool.and_eq_true, Bool.not_eq_true'] at h
    have hidle : w.idle id = true := by
      simp only [idle, Bool.and_eq_true, Bool.not_eq_true']
      refine ⟨ht h.1, Bool.eq_false_iff.2 fun hw => ?_⟩
      rw [he hw] at h
      cases h.2
    rw [if_pos hidle]
    exact hj
  · exact Nat.zero_le _

/-- The timer has an entry of a task that is not enabled only if the task is gone or is about to be
enabled. -/
theorem Orderly.idle_eq_false (o : Orderly w) (hoff : Off id w) {h : Handle}
    {entry : Cron.Schedule × Job} (hl : w.engine.lookup h = some entry)
    (hid : entry.2.task.id = id) : w.idle id = false := by
  obtain ⟨tasks, hf, l⟩ := o.loose
  obtain ⟨t, ht, he⟩ := l.enabled_of_lookup hl
  rw [hid] at ht
  have hnot : w.tasks.get? id ≠ some t := by
    intro hw
    rw [hoff t hw] at he
    cases he
  refine Bool.eq_false_iff.2 fun hp => ?_
  simp only [idle, Bool.and_eq_true, Bool.not_eq_true', enabling] at hp
  obtain ⟨hc, hp⟩ := hp
  unfold Foreseen at hf
  split at hf
  · rename_i c t' hx
    rw [hx] at hp
    rw [hf, Table.get?_insert] at ht
    split at ht
    · rename_i hk
      cases ht
      simp [he, hk] at hp
    · exact hnot ht
  · rename_i k hx
    rw [hf, Table.contains_iff] at hc
    obtain ⟨t', ht'⟩ := hc
    rw [Table.get?_erase] at ht'
    split at ht'
    · cases ht'
    · rename_i hk
      apply hnot
      rw [hf, Table.get?_erase, if_neg hk, ht]
  · exact hnot (hf ▸ ht)

theorem Orderly.pending_proceed (o : Orderly w) {m : Moment} {x : Holder} {s : Service φ}
    {x? : Option Holder} {c? : Option Change} (hx : w.holder? = some x)
    (hact : x.act w.toService m = (s, x?, c?))
    (hoff : Off id { w with toService := s, holder? := x? }) :
    c?.toList.countP (Change.starts id) = 0 ∧
      pending { w with toService := s, holder? := x? } id ≤ w.pending id := by
  have ht := x.act_tasks w.toService m
  have howner := x.act_owner w.toService m
  rw [hact] at ht howner
  have hj : waiting { w with toService := s, holder? := x? } id ≤ w.waiting id := by
    simp only [waiting]
    rw [howner]
  have hsame : s.tasks = w.tasks → s.tasks.contains id = true → w.tasks.contains id = true :=
    fun hs => by rw [hs]; exact fun h => h
  cases x with
  | commit c t =>
    cases hact
    have hdraft : Draft w.tasks c t := o.sound hx
    have hput : t.id = id → t.enabled = false := by
      rintro rfl
      exact hoff t (Table.get?_insert_self ..)
    refine ⟨by simp [hdraft.starts_eq], pending_le_pending hj ?_ ?_⟩
    -- A disabled task is put in the place of one that was there, so none appears by this.
    · intro hc
      rw [Table.contains_iff] at hc ⊢
      obtain ⟨t', ht'⟩ := hc
      change (w.tasks.insert t.id t).get? id = some t' at ht'
      rw [Table.get?_insert] at ht'
      split at ht'
      · rename_i hk
        rw [hk]
        exact hdraft.exists_of_disabled (hput hk.symm)
      · exact ⟨t', ht'⟩
    · intro he
      simp only [enabling, hx, Bool.and_eq_true, decide_eq_true_eq] at he
      rw [hput he.2] at he
      cases he.1
  | remove k =>
    cases hact
    refine ⟨rfl, pending_le_pending hj ?_ fun he => by simp [enabling, hx] at he⟩
    intro hc
    rw [Table.contains_iff] at hc ⊢
    obtain ⟨t', ht'⟩ := hc
    change (w.tasks.erase k).get? id = some t' at ht'
    rw [Table.get?_erase] at ht'
    split at ht'
    · cases ht'
    · exact ⟨t', ht'⟩
  | install c t previous? =>
    obtain ⟨rfl, -⟩ := Holder.act_install hact
    exact ⟨rfl, pending_le_pending hj (hsame ht) fun he => by simp [enabling, hx] at he⟩
  | _ =>
    cases hact
    exact ⟨rfl, pending_le_pending hj (hsame ht) fun he => by simp [enabling, hx] at he⟩

theorem stamp_frame (keyed : ∀ {k t}, w.tasks.get? k = some t → t.id = k) {m : Moment}
    {firedAt : Time.Instant} {s : Service φ} {t : Task}
    (hs : w.toService.stamp m id firedAt = some (s, t)) :
    s.owner = w.owner ∧ w.tasks.contains id = true ∧
      ∀ k, s.tasks.contains k = true → w.tasks.contains k = true := by
  obtain ⟨previous, hp, rfl, rfl, rfl⟩ := stamp_eq_some keyed hs
  have hc : w.tasks.contains previous.id = true := (Table.contains_iff ..).2 ⟨previous, hp⟩
  refine ⟨rfl, hc, fun k hk => ?_⟩
  by_cases hkid : k = previous.id
  · rw [hkid]
    exact hc
  · change (w.tasks.insert previous.id _).contains k = true at hk
    rwa [Table.contains, Table.get?_insert, if_neg hkid] at hk

theorem pending_run (keyed : ∀ {k t}, w.tasks.get? k = some t → t.id = k) {m : Moment}
    {k : String} {firedAt : Time.Instant} {s : Service φ} {t : Task}
    (hs : w.toService.stamp m k firedAt = some (s, t)) (hx : w.holder? = none)
    (firings : List (Stage σ)) : pending ⟨s, w.holder?, w.jobs, firings⟩ id ≤ w.pending id := by
  obtain ⟨howner, -, ht⟩ := stamp_frame keyed hs
  refine pending_le_pending (Nat.le_of_eq ?_) (ht id) fun he => by simp [enabling, hx] at he
  simp only [waiting]
  rw [howner]

theorem pending_runJob (keyed : ∀ {k t}, w.tasks.get? k = some t → t.id = k) {m : Moment}
    {firedAt : Time.Instant} {s : Service φ} {t : Task} {job : Job} {l l' : List Job}
    (hx : w.holder? = none) (hjobs : w.jobs = l ++ job :: l') (howner : job.owner = w.owner)
    (hs : w.toService.stamp m job.task.id firedAt = some (s, t)) (firings : List (Stage σ)) :
    (if job.task.id = id then 1 else 0) + pending ⟨s, w.holder?, l ++ l', firings⟩ id ≤
      w.pending id := by
  obtain ⟨hsame, hc, ht⟩ := stamp_frame keyed hs
  have hwaiting : waiting ⟨s, w.holder?, l ++ l', firings⟩ id +
      (if job.task.id = id then 1 else 0) = w.waiting id := by
    simp only [waiting, hjobs, hsame, List.countP_append, List.countP_cons, howner, true_and,
      decide_eq_true_eq]
    omega
  by_cases hid : job.task.id = id
  · subst hid
    have hw : w.pending job.task.id = w.waiting job.task.id :=
      if_pos (by simp [idle, hc, enabling, hx])
    have hle := pending_le_waiting ⟨s, w.holder?, l ++ l', firings⟩ job.task.id
    omega
  · rw [if_neg hid] at hwaiting ⊢
    rw [Nat.zero_add]
    exact pending_le_pending (Nat.le_of_eq hwaiting) (ht id) fun he => by simp [enabling, hx] at he

theorem Orderly.pending_handOut (o : Orderly w) (hoff : Off id w) {jobs : List Job}
    (hjobs : ∀ job ∈ jobs, ∃ h schedule, w.engine.lookup h = some (schedule, job))
    (engine : Engine Job) :
    pending { w with engine, jobs := w.jobs ++ jobs } id ≤ w.pending id := by
  by_cases hid : ∃ job ∈ jobs, job.task.id = id
  · obtain ⟨job, hjob, hid⟩ := hid
    obtain ⟨h, schedule, hl⟩ := hjobs job hjob
    have hidle : w.idle id = false := o.idle_eq_false hoff hl hid
    have hzero : pending { w with engine, jobs := w.jobs ++ jobs } id = 0 :=
      if_neg (ne_true_of_eq_false hidle)
    rw [hzero]
    exact Nat.zero_le _
  · refine pending_le_pending (Nat.le_of_eq ?_) (fun h => h) fun h => h
    have hnone : jobs.countP (fun job => job.owner = w.owner ∧ job.task.id = id) = 0 := by
      rw [List.countP_eq_zero]
      intro job hjob
      simp only [decide_eq_true_eq, not_and]
      exact fun _ hk => hid ⟨job, hjob, hk⟩
    simp only [waiting, List.countP_append]
    rw [hnone, Nat.add_zero]

theorem lookup_of_mem_collect {l : Loop Job} {job : Job}
    (h : job ∈ l.collect.2.map Prod.snd) :
    ∃ h schedule, (Engine.looping l).lookup h = some (schedule, job) := by
  simp only [Loop.collect] at h
  split at h
  · obtain ⟨⟨k, _⟩, hm, rfl⟩ := List.mem_map.1 h
    simp only [Loop.due, List.mem_map, List.mem_filter, Prod.mk.injEq] at hm
    obtain ⟨⟨k, e⟩, ⟨hm, -⟩, rfl, rfl⟩ := hm
    refine ⟨k, e.schedule, ?_⟩
    simp [Engine.lookup, (Table.mem_entries_iff ..).1 hm]
  · cases h

variable [Fleet φ σ]

/-- Every step that starts a firing of a task that is not enabled uses up a job of it. -/
theorem Step.pending_le {c? : Option Change} (o : Orderly w) (h : Tidy w) (hoff : Off id w)
    (hoff' : Off id w') (hs : Step w c? w') :
    c?.toList.countP (Change.starts id) + w'.pending id ≤ w.pending id := by
  cases hs with
  | enter m r hx hr =>
    rw [Option.toList_none, List.countP_nil, Nat.zero_add]
    exact pending_le_pending (Nat.le_refl _) (fun h => h) fun he => by simp [enabling, hx] at he
  | proceed m hx hact =>
    obtain ⟨hc, hp⟩ := o.pending_proceed hx hact hoff'
    rwa [hc, Nat.zero_add]
  | run m k firedAt hx hstamp =>
    rw [Option.toList_some, List.countP_singleton, if_neg (by simp [Change.starts]), Nat.zero_add]
    exact pending_run h.id_eq hstamp hx _
  | runJob m firedAt hx hjobs howner hstamp =>
    rw [Option.toList_some, Change.countP_starts]
    exact pending_runJob h.id_eq hx hjobs howner hstamp _
  | skipJob hx hjobs hgone =>
    rw [Option.toList_none, List.countP_nil, Nat.zero_add]
    refine pending_le_pending ?_ (fun h => h) fun h => h
    simp only [waiting, hjobs, List.countP_append, List.countP_cons]
    omega
  | collect hl =>
    rw [Option.toList_none, List.countP_nil, Nat.zero_add]
    refine o.pending_handOut hoff (fun job hjob => ?_) _
    rw [hl]
    exact lookup_of_mem_collect hjob
  | fire he hjob =>
    rw [Option.toList_none, List.countP_nil, Nat.zero_add]
    refine o.pending_handOut hoff (fun job hj => ?_) w.engine
    obtain ⟨entry, hentry, hjob⟩ := Option.map_eq_some_iff.1 hjob
    rw [List.mem_singleton] at hj
    rw [he, hj, ← hjob]
    exact ⟨_, entry.1, hentry⟩
  | _ =>
    rw [Option.toList_none, List.countP_nil, Nat.zero_add]
    exact Nat.le_refl _

variable {site : Site φ} {owner : Nat} {options : Options} {m : Moment} {log : List Change}

/-- As long as a task is not enabled, the firings that the timer starts use up its jobs. -/
theorem Course.starts_add_pending_le (c : Course (Off id) w log w') (o : Orderly w) (h : Tidy w) :
    Orderly w' ∧ Tidy w' ∧ log.countP (Change.starts id) + w'.pending id ≤ w.pending id := by
  induction c with
  | refl _ =>
    refine ⟨o, h, ?_⟩
    rw [List.countP_nil, Nat.zero_add]
  | step c hs hoff ih =>
    obtain ⟨o', h', hle⟩ := ih
    refine ⟨o'.step h'.id_eq hs, h'.step hs, ?_⟩
    have hstep := hs.pending_le o' h' c.last hoff
    rw [List.countP_append]
    omega

theorem exists_runJob_iff {job : Job} {firedAt : Time.Instant} (hx : w.holder? = none)
    (hjob : job ∈ w.jobs) (howner : job.owner = w.owner) :
    (∃ w', Step w (some (.stamped job.task.id firedAt true)) w') ↔
      ∃ t, w.tasks.get? job.task.id = some t := by
  constructor
  · rintro ⟨w', hs⟩
    generalize hc : some (Change.stamped job.task.id firedAt true) = c? at hs
    cases hs with
    | proceed m hx' hact =>
      rw [hx] at hx'
      cases hx'
    | runJob m firedAt' hx' hjobs howner' hstamp =>
      obtain ⟨t, ht, -⟩ := Option.map_eq_some_iff.1 hstamp
      injection hc with hc
      injection hc with hid
      exact ⟨t, hid ▸ ht⟩
    | run => cases hc
    | _ => cases hc
  · rintro ⟨t, ht⟩
    obtain ⟨l, l', hjobs⟩ := List.append_of_mem hjob
    have hstamp : w.toService.stamp ⟨firedAt, 0, fun _ => false⟩ job.task.id firedAt =
        some (_, _) := congrArg (Option.map _) ht
    exact ⟨_, .runJob _ firedAt hx hjobs howner hstamp⟩

/-- A job that was handed out starts its firing exactly if its task is there by then, enabled or
not. As long as a task is not enabled, no other firing of it is started by the timer than one for
each of its jobs that had been handed out, and none if the task is gone. -/
theorem Reached.starts_while_off (hsite : site.engine.size = 0)
    (r : Reached site owner options m log w) :
    (w.holder? = none → ∀ job ∈ w.jobs, job.owner = w.owner → ∀ firedAt,
      ((∃ w', Step w (some (.stamped job.task.id firedAt true)) w') ↔
        ∃ t, w.tasks.get? job.task.id = some t)) ∧
      ∀ {id log' w'}, Course (Off id) w log' w' →
        log'.countP (Change.starts id) ≤ w.waiting id ∧
          (w.tasks.get? id = none → log'.countP (Change.starts id) = 0) := by
  refine ⟨fun hx job hjob howner firedAt => exists_runJob_iff hx hjob howner, ?_⟩
  intro id log' w' c
  obtain ⟨-, -, hle⟩ := c.starts_add_pending_le (r.orderly hsite) r.tidy
  refine ⟨Nat.le_trans (Nat.le_of_add_right_le hle) (w.pending_le_waiting id), fun hnone => ?_⟩
  have hzero : w.pending id = 0 := if_neg (by simp [idle, Table.contains, hnone])
  omega

end Busy

end Service

namespace Sample

def made : Service Cluster.Memory :=
  (started.create moment definition "alice").1

def job : Job :=
  ⟨0, .ofDefinition definition "alice" moment.now⟩

def switchedOff : Service.Busy Cluster.Memory Nat :=
  ⟨(made.toggle moment id).1, none, [job], []⟩

theorem reached_switchedOff : Service.Busy.Reached equipped 0 options moment
    [.created definition "alice" moment.now, .toggled id moment.now] switchedOff := by
  have hstart : Service.Busy.Reached equipped 0 options moment [] ⟨started, none, [], []⟩ :=
    .refl trivial
  have hcreated := hstart.create moment definition "alice"
  rw [Service.Busy.committed_of_isOk (by decide +kernel)] at hcreated
  have hmade : Service.Busy.Reached equipped 0 options moment
      [.created definition "alice" moment.now] ⟨made, none, [], []⟩ := hcreated
  obtain ⟨timer, he⟩ : ∃ timer, made.engine = .manual timer := by
    have hclock : made.engine.clock? = some moment.now := by decide +kernel
    cases hm : made.engine with
    | manual timer => exact ⟨timer, rfl⟩
    | looping l =>
      rw [hm] at hclock
      cases hclock
  have hjob : timer.job? ⟨1⟩ = some job := by
    have hjob : made.engine.job? ⟨1⟩ = some job := by decide +kernel
    rwa [he] at hjob
  have hoff := (hmade.fire he hjob).toggle moment hmade.keyed id
  rw [Service.Busy.committed_of_isOk (by decide +kernel)] at hoff
  exact hoff

end Sample

namespace Service.Busy

/-- The task of a job that was handed out is disabled, and the job may start one firing of it. -/
theorem Reached.starts_while_off_sample :
    Sample.equipped.engine.size = 0 ∧
      Reached Sample.equipped 0 Sample.options Sample.moment
        [.created Sample.definition "alice" Sample.moment.now, .toggled Sample.id Sample.moment.now]
        Sample.switchedOff ∧
      ∀ {log w'}, Course (Off Sample.id) Sample.switchedOff log w' →
        log.countP (Change.starts Sample.id) ≤ 1 := by
  have r := Sample.reached_switchedOff
  obtain ⟨-, hstarts⟩ := r.starts_while_off rfl
  have hwaiting : Sample.switchedOff.waiting Sample.id = 1 := by decide +kernel
  refine ⟨rfl, r, fun c => ?_⟩
  rw [← hwaiting]
  exact (hstarts c).1

end Service.Busy

namespace Sample

def twoClusters : Site Cluster.Memory :=
  { site with
    fleet := ((Cluster.Memory.new "east" true).add
      { name := "east", volumes := [("prod", "db-pvc")] }).add
        { name := "west", volumes := [("prod", "db-pvc")], held := true } }

def elsewhere : Definition :=
  { definition with targets := ["west"] }

/-- A host with a firing that waits for the other cluster, and with a task that is no longer for
that cluster. -/
def waitingHost : Host Cluster.Memory Nat :=
  let h := Host.start twoClusters options moment
  let h := h.keep (h.create moment elsewhere "alice").1
  let h := (h.runJob moment ⟨0, .ofDefinition elsewhere "alice" moment.now⟩).1
  h.keep (h.update moment id definition).1

def succeeded : Host Cluster.Memory Nat :=
  let h := waitingHost.succeed waitingHost.toSite moment
  h.keep (h.toggle moment id).1

end Sample

namespace Service.Busy

/-- A job starts a firing of a task that was disabled after the job was handed out. So does the job
of a service that was replaced, as long as a firing of that service is under way. -/
theorem Reached.starts_disabled :
    (∃ log w w', Reached Sample.equipped 0 Sample.options Sample.moment log w ∧
      w.holder? = none ∧ (w.tasks.get? Sample.id).map Task.enabled = some false ∧
      Step w (some (.stamped Sample.id Sample.moment.now true)) w') ∧
    (Sample.succeeded.tasks.get? Sample.id).map Task.enabled = some false ∧
      ((Sample.succeeded.engine.job? ⟨2⟩).map fun job =>
        (Sample.succeeded.runJob Sample.moment job).2) = some (some 1) := by
  have hoff : (Sample.switchedOff.tasks.get? Sample.id).map Task.enabled = some false := by
    decide +kernel
  obtain ⟨t, ht, -⟩ := Option.map_eq_some_iff.1 hoff
  have hid : Sample.job.task.id = Sample.id := by decide +kernel
  have howner : Sample.job.owner = Sample.switchedOff.owner := by decide +kernel
  have hstart : ∃ w', Step Sample.switchedOff
      (some (.stamped Sample.id Sample.moment.now true)) w' := by
    rw [← hid] at ht ⊢
    exact (exists_runJob_iff rfl (List.mem_singleton_self _) howner).2 ⟨t, ht⟩
  obtain ⟨w', hw'⟩ := hstart
  refine ⟨⟨_, _, w', Sample.reached_switchedOff, rfl, hoff, hw'⟩, ?_⟩
  decide +kernel

end Service.Busy

end Snapshots
