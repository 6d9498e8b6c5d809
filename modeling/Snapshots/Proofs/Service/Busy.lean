import Snapshots.Proofs.Service.Restart

/-! # Busy services

A service at which calls, jobs of the timer and firings go on at the same time. One call at a time
holds the lock of the tasks, and takes several steps until it lets go of it. The timer, the
clusters and the history may change between any two steps. Every step comes with the change of the
tasks that it commits, if it commits one.
-/

namespace Snapshots

open Firing Timer Time

/-- A change of the tasks that was committed. -/
inductive Change where
  | created (d : Definition) (createdBy : String) (now : Instant)
  | updated (id : String) (d : Definition) (now : Instant)
  | toggled (id : String) (now : Instant)
  | deleted (id : String)
  /-- The time of a firing was noted, of one that the timer started or of another. -/
  | stamped (id : String) (firedAt : Instant) (scheduled : Bool)

namespace Service

/-- What the call that holds the lock is about to do. -/
inductive Holder where
  /-- To remove the entry of a task that is to be put; the task in its place is given if it has to
  get its entry back after a refusal. -/
  | withdraw (c : Change) (t : Task) (previous? : Option Task)
  | install (c : Change) (t : Task) (previous? : Option Task)
  | reinstate (previous : Task)
  | commit (c : Change) (t : Task)
  | remove (id : String)
  /-- To remove the entry of a task that is deleted, and to write the file. -/
  | strike (id : String)
  | forget (id : String)

/-- A call that waits for the lock. The new task of a creation was made before. -/
inductive Request where
  | create (d : Definition) (createdBy : String) (now : Instant)
  | update (id : String) (d : Definition)
  | toggle (id : String)
  | delete (id : String)

/-- What a call is about to do once it has the lock, unless it is refused. -/
def Request.enter (tasks : Table String Task) (m : Moment) : Request → Option Holder
  | create d createdBy now =>
    let t := Task.ofDefinition d createdBy now
    if tasks.contains t.id then none else some (.withdraw (.created d createdBy now) t none)
  | update id d => (tasks.get? id).map fun previous =>
    .withdraw (.updated id d m.now) (previous.apply d m.now) (some previous)
  | toggle id => (tasks.get? id).map fun previous =>
    .withdraw (.toggled id m.now) (toggled m previous) none
  | delete id => (tasks.get? id).map fun _ => .remove id

/-- How far a firing is. -/
inductive Stage (σ : Type) where
  /-- Its time is noted, and its clusters are to be found. -/
  | stamped (t : Task) (firedAt : Instant)
  | working (flight : Flight σ)
  /-- It is in the history, and its task is to be looked for. -/
  | recorded (id : String)
  /-- Its task was not there, and the history of that is to be forgotten. -/
  | orphaned (id : String)

variable {φ σ : Type} [Fleet φ σ]

/-- What the call that holds the lock does: the service then, what the call is about to do next
unless it lets go of the lock, and the change that it committed. -/
def Holder.act (s : Service φ) (m : Moment) :
    Holder → Service φ × Option Holder × Option Change
  | withdraw c t previous? =>
    (s.unregister t.id, some (if t.enabled then install c t previous? else commit c t), none)
  | install c t previous? =>
    match s.register m t with
    | (s, .ok _) => (s, some (commit c t), none)
    | (s, .error _) => (s, previous?.map reinstate, none)
  | reinstate previous => (s.reinstate m previous, none, none)
  | commit c t => ((s.commit m t).1, none, some c)
  | remove id => ({ s with tasks := s.tasks.erase id }, some (strike id), some (.deleted id))
  | strike id => ((s.unregister id).persist m, some (forget id), none)
  | forget id => (s.forget id, none, none)

theorem Holder.act_eq (x : Holder) (s : Service φ) (m : Moment) :
    ∃ (handles : Registry) (engine : Engine Job), (x.act s m).1 =
      { (match x with
        | commit _ t => (s.commit m t).1
        | remove id => { s with tasks := s.tasks.erase id }
        | strike _ => s.persist m
        | forget id => s.forget id
        | _ => s) with handles, engine } := by
  cases x with
  | install c t previous? =>
    simp only [act]
    split <;> (rename_i hr; exact ⟨_, _, (register_eq hr).2⟩)
  | reinstate previous =>
    simp only [act, Service.reinstate]
    split <;> exact ⟨_, _, rfl⟩
  | _ => exact ⟨_, _, rfl⟩

theorem Holder.act_tasks (x : Holder) (s : Service φ) (m : Moment) :
    (x.act s m).1.tasks =
      match x with
      | commit _ t => s.tasks.insert t.id t
      | remove id => s.tasks.erase id
      | _ => s.tasks := by
  obtain ⟨_, _, h⟩ := x.act_eq s m
  rw [h]
  cases x <;> rfl

theorem Holder.act_history (x : Holder) (s : Service φ) (m : Moment) :
    (x.act s m).1.history =
      match x with
      | forget id => s.history.forget id
      | _ => s.history := by
  obtain ⟨_, _, h⟩ := x.act_eq s m
  rw [h]
  cases x <;> rfl

theorem Holder.act_owner (x : Holder) (s : Service φ) (m : Moment) :
    (x.act s m).1.owner = s.owner := by
  obtain ⟨_, _, h⟩ := x.act_eq s m
  rw [h]
  cases x <;> rfl

theorem Holder.act_install {c : Change} {t : Task} {previous? : Option Task} {s s' : Service φ}
    {m : Moment} {x? : Option Holder} {c? : Option Change}
    (h : (install c t previous?).act s m = (s', x?, c?)) :
    c? = none ∧ ((∃ k, s.register m t = (s', .ok k) ∧ x? = some (commit c t)) ∨
      ∃ e, s.register m t = (s', .error e) ∧ x? = previous?.map reinstate) := by
  simp only [act] at h
  split at h
  · rename_i s₁ k hr
    cases h
    exact ⟨rfl, .inl ⟨k, hr, rfl⟩⟩
  · rename_i s₁ e hr
    cases h
    exact ⟨rfl, .inr ⟨e, hr, rfl⟩⟩

/-- A call that gets the lock is about to withdraw the entry of a task that it made of what is
there, or to remove a task. -/
theorem Request.enter_cases {tasks : Table String Task}
    (keyed : ∀ {k t}, tasks.get? k = some t → t.id = k) {m : Moment} {r : Request} {x : Holder}
    (h : r.enter tasks m = some x) :
    (∃ d createdBy now,
      x = .withdraw (.created d createdBy now) (.ofDefinition d createdBy now) none) ∨
    (∃ d previous, tasks.get? previous.id = some previous ∧
      x = .withdraw (.updated previous.id d m.now) (previous.apply d m.now) (some previous)) ∨
    (∃ previous, tasks.get? previous.id = some previous ∧
      x = .withdraw (.toggled previous.id m.now) (toggled m previous) none) ∨
    ∃ id, x = .remove id := by
  cases r with
  | create d createdBy now =>
    simp only [enter] at h
    split at h
    · cases h
    · cases h
      exact .inl ⟨d, createdBy, now, rfl⟩
  | update id d =>
    obtain ⟨previous, hp, rfl⟩ := Option.map_eq_some_iff.1 h
    obtain rfl := keyed hp
    exact .inr (.inl ⟨d, previous, hp, rfl⟩)
  | toggle id =>
    obtain ⟨previous, hp, rfl⟩ := Option.map_eq_some_iff.1 h
    obtain rfl := keyed hp
    exact .inr (.inr (.inl ⟨previous, hp, rfl⟩))
  | delete id =>
    obtain ⟨_, -, rfl⟩ := Option.map_eq_some_iff.1 h
    exact .inr (.inr (.inr ⟨id, rfl⟩))

theorem stamp_eq_some {s s' : Service φ} (keyed : ∀ {k t}, s.tasks.get? k = some t → t.id = k)
    {m : Moment} {id : String} {firedAt : Instant} {t : Task}
    (h : s.stamp m id firedAt = some (s', t)) :
    ∃ previous, s.tasks.get? id = some previous ∧ previous.id = id ∧
      t = { previous with lastExecuted := some firedAt } ∧ s' = (s.put t).persist m := by
  obtain ⟨previous, hp, hs⟩ := Option.map_eq_some_iff.1 h
  cases hs
  exact ⟨previous, hp, keyed hp, rfl, rfl⟩

theorem register_unregister (s : Service φ) (m : Moment) (t : Task) :
    (s.unregister t.id).register m t = s.register m t := by
  have h := s.handles.unregister_unregister s.engine t.id
  simp only [register, unregister, Registry.register_eq, h, jobOf]

/-- A service with all that goes on at it. -/
structure Busy (φ σ : Type) extends Service φ where
  /-- The call that holds the lock. -/
  holder? : Option Holder := none
  /-- The jobs that the timer handed out and that have not begun. -/
  jobs : List Job := []
  firings : List (Stage σ) := []

namespace Busy

def start (site : Site φ) (owner : Nat) (options : Options) (m : Moment) : Busy φ σ :=
  { Service.start site owner options m with }

/-- What can happen next. -/
inductive Step : Busy φ σ → Option Change → Busy φ σ → Prop

  | enter {w x} (m : Moment) (r : Request) : w.holder? = none → r.enter w.tasks m = some x →
      Step w none { w with holder? := some x }

  | proceed {w x s x? c?} (m : Moment) : w.holder? = some x →
      x.act w.toService m = (s, x?, c?) →
      Step w c? { w with toService := s, holder? := x? }

  | run {w s t} (m : Moment) (id : String) (firedAt : Instant) : w.holder? = none →
      w.toService.stamp m id firedAt = some (s, t) →
      Step w (some (.stamped id firedAt false))
        { w with toService := s, firings := w.firings ++ [.stamped t firedAt] }

  | runJob {w s t jobs job jobs'} (m : Moment) (firedAt : Instant) : w.holder? = none →
      w.jobs = jobs ++ job :: jobs' → job.owner = w.owner →
      w.toService.stamp m job.task.id firedAt = some (s, t) →
      Step w (some (.stamped job.task.id firedAt true))
        { w with
          toService := s
          jobs := jobs ++ jobs'
          firings := w.firings ++ [.stamped job.task firedAt] }

  | skipJob {w jobs job jobs'} : w.holder? = none → w.jobs = jobs ++ job :: jobs' →
      (job.owner = w.owner → w.tasks.contains job.task.id = false) →
      Step w none { w with jobs := jobs ++ jobs' }

  | launch {w fs t firedAt fs'} : w.firings = fs ++ .stamped t firedAt :: fs' →
      Step w none { w with firings := fs ++ .working (w.toService.launch t firedAt) :: fs' }

  | work {w fs f fs'} (unit : Nat) : w.firings = fs ++ .working f :: fs' →
      Step w none
        { w with
          fleet := (f.step w.fleet unit).1
          firings := fs ++ .working (f.step w.fleet unit).2 :: fs' }

  | record {w fs f fs' r} (finishedAt : Instant) : w.firings = fs ++ .working f :: fs' →
      f.record? finishedAt = some r →
      Step w none
        { w with
          toService := w.toService.conclude r
          firings := fs ++ .recorded r.taskId :: fs' }

  | find {w fs id fs'} : w.holder? = none → w.firings = fs ++ .recorded id :: fs' →
      w.tasks.contains id = true → Step w none { w with firings := fs ++ fs' }

  | miss {w fs id fs'} : w.holder? = none → w.firings = fs ++ .recorded id :: fs' →
      w.tasks.contains id = false → Step w none { w with firings := fs ++ .orphaned id :: fs' }

  | forget {w fs id fs'} : w.firings = fs ++ .orphaned id :: fs' →
      Step w none { w with toService := w.toService.forget id, firings := fs ++ fs' }

  | change (w fleet) : Step w none { w with fleet }

  | turn (w) {t : Turn} : t ≠ .collect → Step w none { w with toService := w.toService.turn t }

  | collect {w l} : w.engine = .looping l →
      Step w none
        { w with
          engine := .looping l.collect.1
          jobs := w.jobs ++ l.collect.2.map Prod.snd }

  | fire {w timer h job} : w.engine = .manual timer → timer.job? h = some job →
      Step w none { w with jobs := w.jobs ++ [job] }

/-- What can have happened in several steps, with the changes that were committed and a condition
on every state on the way. -/
inductive Course (p : Busy φ σ → Prop) (w : Busy φ σ) : List Change → Busy φ σ → Prop

  | refl : p w → Course p w [] w

  | step {log w' c? w''} : Course p w log w' → Step w' c? w'' → p w'' →
      Course p w (log ++ c?.toList) w''

/-- What can have happened since a service started. -/
abbrev Reached (site : Site φ) (owner : Nat) (options : Options) (m : Moment) :
    List Change → Busy φ σ → Prop :=
  Course (fun _ => True) (start site owner options m)

/-- What holds at the beginning and is kept by every step holds all the way. -/
theorem Course.keeps {p : Busy φ σ → Prop} {q : List Change → Busy φ σ → Prop}
    {w w' : Busy φ σ} {log : List Change} (c : Course p w log w') (h : q [] w)
    (hstep : ∀ {log w c? w'}, q log w → Step w c? w' → q (log ++ c?.toList) w') : q log w' := by
  induction c with
  | refl _ => exact h
  | step _ hs _ ih => exact hstep ih hs

theorem Course.last {p : Busy φ σ → Prop} {w w' : Busy φ σ} {log : List Change}
    (c : Course p w log w') : p w' := by
  cases c with
  | refl hp => exact hp
  | step _ _ hp => exact hp

theorem Course.reached {p : Busy φ σ → Prop} {site : Site φ} {owner : Nat} {options : Options}
    {m : Moment} {log : List Change} {w : Busy φ σ}
    (c : Course p (start site owner options m) log w) : Reached site owner options m log w := by
  induction c with
  | refl _ => exact .refl trivial
  | step _ hs _ ih => exact ih.step hs trivial

theorem Course.quiet {p : Busy φ σ → Prop} {w w' w'' : Busy φ σ} {log : List Change}
    (c : Course p w log w') (hs : Step w' none w'') (hp : p w'') : Course p w log w'' := by
  have h := c.step hs hp
  rwa [Option.toList_none, List.append_nil] at h

/-! ### Calls that nothing comes between -/

/-- A call that succeeds commits its change. -/
def committed {α : Type} (c : Change) : Except TaskError α → List Change
  | .ok _ => [c]
  | .error _ => []

theorem committed_of_isOk {α : Type} {c : Change} {r : Except TaskError α} (h : r.isOk = true) :
    committed c r = [c] := by
  cases r with
  | ok _ => rfl
  | error _ => cases h

section

variable {s s' : Service φ} {m : Moment} {w : Busy φ σ} {log : List Change} {jobs : List Job}
  {firings : List (Stage σ)}

theorem Course.enter {x : Holder} (c : Course (fun _ => True) w log ⟨s, none, jobs, firings⟩)
    (m : Moment) (r : Request) (h : r.enter s.tasks m = some x) :
    Course (fun _ => True) w log ⟨s, some x, jobs, firings⟩ :=
  c.quiet (.enter m r rfl h) trivial

theorem Course.proceed {x : Holder} {x? : Option Holder}
    (c : Course (fun _ => True) w log ⟨s, some x, jobs, firings⟩) (m : Moment)
    (h : x.act s m = (s', x?, none)) : Course (fun _ => True) w log ⟨s', x?, jobs, firings⟩ :=
  c.quiet (.proceed m rfl h) trivial

theorem Course.commit {ch : Change} {t : Task}
    (c : Course (fun _ => True) w log ⟨s, some (.commit ch t), jobs, firings⟩) (m : Moment) :
    Course (fun _ => True) w (log ++ [ch]) ⟨(s.commit m t).1, none, jobs, firings⟩ :=
  c.step (.proceed m rfl rfl) trivial

section

variable {t : Task} {ch : Change} {previous? : Option Task}
  (c : Course (fun _ => True) w log ⟨s, some (.withdraw ch t previous?), jobs, firings⟩)

include c

theorem Course.install (m : Moment) (he : t.enabled = true) :
    Course (fun _ => True) w log
      ⟨s.unregister t.id, some (.install ch t previous?), jobs, firings⟩ :=
  c.proceed m (by simp [Holder.act, he])

theorem Course.taken {k : Handle} (he : t.enabled = true) (hr : s.register m t = (s', .ok k)) :
    Course (fun _ => True) w (log ++ [ch]) ⟨(s'.commit m t).1, none, jobs, firings⟩ := by
  rw [← register_unregister] at hr
  have hact : (Holder.install ch t previous?).act (s.unregister t.id) m =
      (s', some (.commit ch t), none) := by
    simp [Holder.act, hr]
  exact ((c.install m he).proceed m hact).commit m

theorem Course.refused {e : RegisterError} (he : t.enabled = true)
    (hr : s.register m t = (s', .error e)) :
    Course (fun _ => True) w log ⟨s', previous?.map .reinstate, jobs, firings⟩ := by
  rw [← register_unregister] at hr
  have hact : (Holder.install ch t previous?).act (s.unregister t.id) m =
      (s', previous?.map .reinstate, none) := by
    simp [Holder.act, hr]
  exact (c.install m he).proceed m hact

theorem Course.withdrawn (m : Moment) (he : t.enabled = false) :
    Course (fun _ => True) w (log ++ [ch])
      ⟨((s.unregister t.id).commit m t).1, none, jobs, firings⟩ := by
  have hact : (Holder.withdraw ch t previous?).act s m =
      (s.unregister t.id, some (.commit ch t), none) := by
    simp [Holder.act, he]
  exact (c.proceed m hact).commit m

end

section

variable (c : Course (fun _ => True) w log ⟨s, none, jobs, firings⟩) (m : Moment)

include c

theorem Course.create (d : Definition) (createdBy : String) :
    Course (fun _ => True) w
      (log ++ committed (.created d createdBy m.now) (s.create m d createdBy).2)
      ⟨(s.create m d createdBy).1, none, jobs, firings⟩ := by
  rcases s.create_cases m d createdBy with ⟨e, -, h, -⟩ | ⟨-, hnew, hr⟩
  · rw [h]
    simpa [committed] using c
  · have henter : (Request.create d createdBy m.now).enter s.tasks m =
        some (.withdraw (.created d createdBy m.now) (.ofDefinition d createdBy m.now) none) := by
      simp [Request.enter, Table.contains, hnew]
    have hc := c.enter m _ henter
    rcases hr with ⟨s', e, hr, h, -⟩ | ⟨s', k, hr, h, -⟩
    · rw [h]
      simpa [committed] using hc.refused rfl hr
    · rw [h]
      exact hc.taken rfl hr

theorem Course.update (keyed : ∀ {k t}, s.tasks.get? k = some t → t.id = k) (id : String)
    (d : Definition) :
    Course (fun _ => True) w (log ++ committed (.updated id d m.now) (s.update m id d).2)
      ⟨(s.update m id d).1, none, jobs, firings⟩ := by
  rcases s.update_cases m id d with ⟨e, -, h, -⟩ | ⟨previous, -, ht, hr⟩
  · rw [h]
    simpa [committed] using c
  · have henter : (Request.update id d).enter s.tasks m =
        some (.withdraw (.updated id d m.now) (previous.apply d m.now) (some previous)) := by
      simp [Request.enter, ht]
    have hc := c.enter m _ henter
    rcases hr with ⟨he, ⟨s', e, hr, h, -⟩ | ⟨s', k, hr, h, -⟩⟩ | ⟨he, h, -⟩
    · rw [h]
      simpa [committed] using (hc.refused he hr).proceed m rfl
    · rw [h]
      exact hc.taken he hr
    · rw [h, ← keyed ht]
      rw [← keyed ht] at hc
      exact hc.withdrawn m he

theorem Course.toggle (keyed : ∀ {k t}, s.tasks.get? k = some t → t.id = k) (id : String) :
    Course (fun _ => True) w (log ++ committed (.toggled id m.now) (s.toggle m id).2)
      ⟨(s.toggle m id).1, none, jobs, firings⟩ := by
  rcases s.toggle_cases m id with ⟨-, h, -⟩ | ⟨previous, ht, hr⟩
  · rw [h]
    simpa [committed] using c
  · have henter : (Request.toggle id).enter s.tasks m =
        some (.withdraw (.toggled id m.now) (toggled m previous) none) := by
      simp [Request.enter, ht]
    have hc := c.enter m _ henter
    rcases hr with ⟨he, ⟨s', e, hr, h, -⟩ | ⟨s', k, hr, h, -⟩⟩ | ⟨he, h, -⟩
    · rw [h]
      simpa [committed] using hc.refused (by simp [toggled, he]) hr
    · rw [h]
      exact hc.taken (by simp [toggled, he]) hr
    · rw [h, ← keyed ht]
      rw [← keyed ht] at hc
      exact hc.withdrawn m (by simp [toggled, he])

theorem Course.delete (id : String) :
    Course (fun _ => True) w (log ++ committed (.deleted id) (s.delete m id).2)
      ⟨(s.delete m id).1, none, jobs, firings⟩ := by
  unfold Service.delete
  split
  · rename_i hc
    obtain ⟨t, ht⟩ := (Table.contains_iff ..).1 hc
    have henter : (Request.delete id).enter s.tasks m = some (.remove id) := by
      simp [Request.enter, ht]
    have hremoved := (c.enter m _ henter).step (.proceed m rfl rfl) trivial
    exact (hremoved.proceed m rfl).proceed m rfl
  · simpa [committed] using c

end

/-! ### Firings -/

section

variable {x? : Option Holder} {l l' : List (Stage σ)} {t : Task} {firedAt : Instant}
  {f f' : Flight σ} {r : Record}

theorem Course.run (c : Course (fun _ => True) w log ⟨s, none, jobs, firings⟩) {id : String}
    (h : s.stamp m id firedAt = some (s', t)) :
    Course (fun _ => True) w (log ++ [.stamped id firedAt false])
      ⟨s', none, jobs, firings ++ [.stamped t firedAt]⟩ :=
  c.step (.run m id firedAt rfl h) trivial

theorem Course.fire (c : Course (fun _ => True) w log ⟨s, x?, jobs, firings⟩)
    {timer : Manual Job} {h : Handle} {job : Job} (he : s.engine = .manual timer)
    (hjob : timer.job? h = some job) :
    Course (fun _ => True) w log ⟨s, x?, jobs ++ [job], firings⟩ :=
  c.quiet (.fire he hjob) trivial

theorem Course.launch
    (c : Course (fun _ => True) w log ⟨s, x?, jobs, l ++ .stamped t firedAt :: l'⟩) :
    Course (fun _ => True) w log ⟨s, x?, jobs, l ++ .working (s.launch t firedAt) :: l'⟩ :=
  c.quiet (.launch rfl) trivial

theorem Course.works {p : Busy φ σ → Prop} {works : List (Work φ)} {fleet : φ}
    (hp : ∀ s f, p ⟨s, x?, jobs, l ++ .working f :: l'⟩)
    (c : Course p w log ⟨s, x?, jobs, l ++ .working f :: l'⟩)
    (h : workThrough s.fleet f works = (fleet, f')) :
    Course p w log ⟨{ s with fleet }, x?, jobs, l ++ .working f' :: l'⟩ := by
  induction works generalizing s f with
  | nil =>
    cases h
    exact c
  | cons x works ih =>
    cases x with
    | step unit =>
      exact ih (s := { s with fleet := (f.step s.fleet unit).1 })
        (c.quiet (.work unit rfl) (hp ..)) h
    | change g =>
      exact ih (s := { s with fleet := g s.fleet }) (c.quiet (.change _ (g s.fleet)) (hp ..)) h

theorem Course.work {works : List (Work φ)} {fleet : φ}
    (c : Course (fun _ => True) w log ⟨s, x?, jobs, l ++ .working f :: l'⟩)
    (h : workThrough s.fleet f works = (fleet, f')) :
    Course (fun _ => True) w log
      ⟨{ s with fleet }, x?, jobs, l ++ .working f' :: l'⟩ :=
  c.works (fun _ _ => trivial) h

theorem Course.ends {p : Busy φ σ → Prop} (hp : ∀ s x, p ⟨s, none, jobs, l ++ x :: l'⟩)
    (hend : ∀ s, p ⟨s, none, jobs, l ++ l'⟩)
    (c : Course p w log ⟨s, none, jobs, l ++ .working f :: l'⟩)
    {finishedAt : Instant} (h : f.record? finishedAt = some r) :
    Course p w log ⟨(s.conclude r).settle r.taskId, none, jobs, l ++ l'⟩ := by
  have hrecorded : Course p w log ⟨s.conclude r, none, jobs, l ++ .recorded r.taskId :: l'⟩ :=
    c.quiet (.record finishedAt rfl h) (hp ..)
  unfold Service.settle
  split
  · rename_i hid
    exact hrecorded.quiet (.find rfl rfl hid) (hend _)
  · rename_i hid
    have hmissed := hrecorded.quiet (.miss rfl rfl (by simpa using hid)) (hp ..)
    exact hmissed.quiet (.forget rfl) (hend _)

theorem Course.settle (c : Course (fun _ => True) w log ⟨s, none, jobs, l ++ .working f :: l'⟩)
    {finishedAt : Instant} (h : f.record? finishedAt = some r) :
    Course (fun _ => True) w log
      ⟨(s.conclude r).settle r.taskId, none, jobs, l ++ l'⟩ :=
  c.ends (fun _ _ => trivial) (fun _ => trivial) h

end

end

end Busy

end Service

/-! ### A course to try statements on -/

namespace Sample

def stamped : Task :=
  { Task.ofDefinition definition "alice" moment.now with lastExecuted := some moment.now }

def running : Service Cluster.Memory :=
  (((started.create moment definition "alice").1).put stamped).persist moment

/-- The service after the task was deleted and created again while its run was under way. -/
def recreated : Service Cluster.Memory :=
  ((running.delete moment id).1.create moment definition "alice").1

def flight : Flight Nat :=
  running.launch stamped moment.now

def worked : Cluster.Memory × Flight Nat :=
  Service.workThrough recreated.fleet flight [.step 0, .step 0, .step 0]

def record : Record where
  taskId := id
  snapshotName := "db-1714566896"
  firedAt := moment.now
  finishedAt := moment.now
  status := .success
  outcomes := [⟨"east", some "db-1714566896", none⟩]

def ended : Service.Busy Cluster.Memory Nat :=
  ⟨({ recreated with fleet := worked.1 }.conclude record).settle record.taskId, none, [], []⟩

def log : List Change :=
  [.created definition "alice" moment.now, .stamped id moment.now false, .deleted id,
    .created definition "alice" moment.now]

theorem reached_ended : Service.Busy.Reached equipped 0 options moment log ended := by
  have hget : (started.create moment definition "alice").1.tasks.get? id =
      some (.ofDefinition definition "alice" moment.now) := by
    decide +kernel
  have hstamp : (started.create moment definition "alice").1.stamp moment id moment.now =
      some (running, stamped) := by
    simp only [Service.stamp, hget]
    rfl
  have hstart : Service.Busy.Reached equipped 0 options moment [] ⟨started, none, [], []⟩ :=
    .refl trivial
  have hcreated := hstart.create moment definition "alice"
  rw [Service.Busy.committed_of_isOk (by decide +kernel)] at hcreated
  have hgone := ((hcreated.run hstamp).launch (l := [])).delete moment id
  rw [Service.Busy.committed_of_isOk (by decide +kernel)] at hgone
  have hagain := hgone.create moment definition "alice"
  rw [Service.Busy.committed_of_isOk (by decide +kernel)] at hagain
  have hrecreated : Service.Busy.Reached equipped 0 options moment log
      ⟨recreated, none, [], [.working flight]⟩ := hagain
  have hwork : Service.workThrough recreated.fleet flight [.step 0, .step 0, .step 0] =
      (worked.1, worked.2) :=
    (Prod.mk.eta (p := worked)).symm
  have hrecord : worked.2.record? moment.now = some record := by decide +kernel
  exact (hrecreated.work (l := []) hwork).settle (l := []) hrecord

end Sample

end Snapshots
