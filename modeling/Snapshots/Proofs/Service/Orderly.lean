import Snapshots.Proofs.Service.Lockstep
import Snapshots.Proofs.Service.Orphans

/-! # The timer between the steps of a call

A call changes the timer before it puts a task and after it removes one. What the timer has are
always entries of enabled tasks: of those that there are, of one that is about to be put, or of one
that was just removed.
-/

namespace Snapshots

open Timer

/-- Tasks, registry and timer agree, but for enabled tasks that have no entry. -/
def Loose (owner : Nat) (tasks : Table String Task) (handles : Registry) (engine : Engine Job) :
    Prop :=
  ∃ as, (∃ e, .error e ∈ as) ∧ Lockstep as owner tasks handles engine

namespace Loose

variable {φ : Type} {owner : Nat} {tasks tasks' : Table String Task} {handles : Registry}
  {engine : Engine Job}

theorem of_lockstep {as : List Answer} (l : Lockstep as owner tasks handles engine) :
    Loose owner tasks handles engine :=
  ⟨_, ⟨.unavailable "", List.mem_append_right _ (List.mem_singleton_self _)⟩, l.refuse _⟩

theorem id_eq (l : Loose owner tasks handles engine) {k : String} {t : Task}
    (ht : tasks.get? k = some t) : t.id = k := by
  obtain ⟨as, -, l⟩ := l
  exact l.id_eq ht

theorem remove (l : Loose owner tasks handles engine) (id : String)
    (hid : ∀ {t}, tasks'.get? id = some t → t.id = id)
    (hother : ∀ k, k ≠ id → tasks'.get? k = tasks.get? k) :
    Loose owner tasks' (handles.unregister engine id).1 (handles.unregister engine id).2 := by
  obtain ⟨as, ⟨e, he⟩, l⟩ := l
  refine ⟨as, ⟨e, he⟩, l.remove hid (.inl ⟨_, he, e, rfl⟩) hother ?_ ?_ ?_⟩
  · exact Registry.get?_unregister handles engine id
  · exact Registry.lookup_unregister handles engine id
  · exact Registry.lastNumber_unregister ..

theorem refused {s s' : Service φ} (l : Loose s.owner tasks s.handles s.engine) {m : Moment}
    {t : Task} {e : RegisterError} (hr : s.register m t = (s', .error e)) :
    Loose s'.owner tasks s'.handles s'.engine := by
  obtain ⟨as, -, l⟩ := l
  obtain ⟨hr, hs⟩ := Service.register_eq hr
  rw [hs]
  exact .of_lockstep (l.refused hr)

theorem taken {s s' : Service φ} (l : Loose s.owner tasks s.handles s.engine) {m : Moment}
    {t : Task} {h : Handle} (hr : s.register m t = (s', .ok h)) (he : t.enabled = true)
    (hget : tasks'.get? t.id = some t) (hother : ∀ k, k ≠ t.id → tasks'.get? k = tasks.get? k) :
    Loose s'.owner tasks' s'.handles s'.engine := by
  obtain ⟨as, -, l⟩ := l
  obtain ⟨hr, hs⟩ := Service.register_eq hr
  rw [hs]
  exact .of_lockstep (l.register hr he hget hother)

theorem stamp (l : Loose owner tasks handles engine) {id : String} {t : Task}
    (ht : tasks.get? id = some t) (last : Option Time.Instant) :
    Loose owner (tasks.insert id { t with lastExecuted := last }) handles engine := by
  obtain ⟨as, he, l⟩ := l
  exact ⟨as, he, l.stamp ht last⟩

theorem turn (l : Loose owner tasks handles engine) (t : Turn) :
    Loose owner tasks handles (engine.turn t) := by
  obtain ⟨as, he, l⟩ := l
  exact ⟨as, he, l.turn t⟩

theorem enabled_of_lookup (l : Loose owner tasks handles engine) {h : Handle}
    {entry : Cron.Schedule × Job} (hl : engine.lookup h = some entry) :
    ∃ t, tasks.get? entry.2.task.id = some t ∧ t.enabled = true := by
  obtain ⟨as, -, l⟩ := l
  obtain ⟨k, hk⟩ := l.owned hl
  obtain ⟨t, entry', ht, he, hl', hs⟩ := l.registered hk
  rw [hl] at hl'
  cases hl'
  have hid : entry.2.task.id = k := (congrArg Task.id hs.task_eq).trans (l.id_eq ht)
  exact ⟨t, hid ▸ ht, he⟩

end Loose

namespace Service

variable {φ σ : Type} {tasks : Table String Task}

/-- A change is not a firing, and its task is enabled or is there. -/
structure Draft (tasks : Table String Task) (c : Change) (t : Task) : Prop where
  ne_stamped : ∀ id firedAt scheduled, c ≠ .stamped id firedAt scheduled
  exists_of_disabled : t.enabled = false → ∃ t', tasks.get? t.id = some t'

/-- What the call that holds the lock relies on. -/
def Holder.Sound (tasks : Table String Task) : Holder → Prop
  | withdraw c t previous? => Draft tasks c t ∧ ∀ p, previous? = some p → tasks.get? p.id = some p
  | install c t previous? =>
    t.enabled = true ∧ Draft tasks c t ∧ ∀ p, previous? = some p → tasks.get? p.id = some p
  | reinstate previous => tasks.get? previous.id = some previous
  | commit c t => Draft tasks c t
  | _ => True

theorem Request.sound (keyed : ∀ {k t}, tasks.get? k = some t → t.id = k) {m : Moment}
    {r : Request} {x : Holder} (h : r.enter tasks m = some x) : x.Sound tasks := by
  rcases Request.enter_cases keyed h with ⟨d, createdBy, now, rfl⟩ | ⟨d, previous, hp, rfl⟩ |
    ⟨previous, hp, rfl⟩ | ⟨id, rfl⟩
  · exact ⟨⟨by simp, fun he => by cases he⟩, fun _ hp => by cases hp⟩
  · refine ⟨⟨by simp, fun _ => ⟨previous, hp⟩⟩, ?_⟩
    rintro _ ⟨⟩
    exact hp
  · exact ⟨⟨by simp, fun _ => ⟨previous, hp⟩⟩, fun _ hp => by cases hp⟩
  · trivial

/-- The tasks as the timer has them: a task that is about to be put has its entry already, and one
that was removed has it still. -/
def Foreseen (tasks tasks' : Table String Task) : Option Holder → Prop
  | some (.commit _ t) => tasks' = tasks.insert t.id t
  | some (.strike id) => tasks = tasks'.erase id
  | _ => tasks' = tasks

namespace Busy

variable {w w' : Busy φ σ}

/-- Tasks, registry and timer agree between the steps of a call. -/
structure Orderly (w : Busy φ σ) : Prop where
  loose : ∃ tasks, Foreseen w.tasks tasks w.holder? ∧ Loose w.owner tasks w.handles w.engine
  sound : ∀ {x}, w.holder? = some x → x.Sound w.tasks

namespace Orderly

variable {m : Moment} {c? : Option Change}

section

variable {s : Service φ} {x? : Option Holder} {c : Change} {t : Task}

theorem loose_of_foreseen (o : Orderly w) {x : Holder} (hx : w.holder? = some x)
    (hf : ∀ tasks, Foreseen w.tasks tasks (some x) → tasks = w.tasks) :
    Loose w.owner w.tasks w.handles w.engine := by
  obtain ⟨tasks, htasks, l⟩ := o.loose
  rw [hx] at htasks
  exact hf tasks htasks ▸ l

theorem withdraw (o : Orderly w) {previous? : Option Task}
    (hx : w.holder? = some (.withdraw c t previous?))
    (hact : (Holder.withdraw c t previous?).act w.toService m = (s, x?, c?)) :
    Orderly { w with toService := s, holder? := x? } := by
  have l := o.loose_of_foreseen hx fun _ h => h
  have hs : Holder.Sound w.tasks (.withdraw c t previous?) := o.sound hx
  cases hact
  cases he : t.enabled with
  -- The tasks stay as they are until the timer has answered, and an entry fewer does no harm.
  | true =>
    refine ⟨⟨w.tasks, rfl, l.remove t.id (fun ht => l.id_eq ht) fun _ _ => rfl⟩, ?_⟩
    rintro y ⟨⟩
    exact ⟨he, hs⟩
  -- The timer is not asked, so it is in step with the tasks as they are about to be.
  | false =>
    refine ⟨⟨w.tasks.insert t.id t, rfl, l.remove t.id ?_ fun k hk => ?_⟩, ?_⟩
    · intro t' ht'
      rw [Table.get?_insert_self] at ht'
      cases ht'
      rfl
    · exact (Table.get?_insert ..).trans (if_neg hk)
    · rintro y ⟨⟩
      exact hs.1

theorem install (o : Orderly w) {previous? : Option Task}
    (hx : w.holder? = some (.install c t previous?))
    (hact : (Holder.install c t previous?).act w.toService m = (s, x?, c?)) :
    Orderly { w with toService := s, holder? := x? } := by
  have l := o.loose_of_foreseen hx fun _ h => h
  obtain ⟨he, hdraft, hprevious⟩ : Holder.Sound w.tasks (.install c t previous?) := o.sound hx
  have ht : s.tasks = w.tasks := by
    have ht := (Holder.install c t previous?).act_tasks w.toService m
    rwa [hact] at ht
  obtain ⟨rfl, ⟨k, hr, rfl⟩ | ⟨e, hr, rfl⟩⟩ := Holder.act_install hact
  · refine ⟨⟨w.tasks.insert t.id t, ?_, l.taken hr he (Table.get?_insert_self ..) ?_⟩, ?_⟩
    · exact congrArg (Table.insert · t.id t) ht.symm
    · exact fun k hk => (Table.get?_insert ..).trans (if_neg hk)
    · rintro y ⟨⟩
      exact ht ▸ hdraft
  · cases previous? with
    | none => exact ⟨⟨w.tasks, ht.symm, l.refused hr⟩, fun hy => by cases hy⟩
    | some previous =>
      refine ⟨⟨w.tasks, ht.symm, l.refused hr⟩, ?_⟩
      rintro y ⟨⟩
      exact ht ▸ hprevious previous rfl

theorem reinstate (o : Orderly w) {previous : Task} (hx : w.holder? = some (.reinstate previous))
    (hact : (Holder.reinstate previous).act w.toService m = (s, x?, c?)) :
    Orderly { w with toService := s, holder? := x? } := by
  have l := o.loose_of_foreseen hx fun _ h => h
  have hs : w.tasks.get? previous.id = some previous := o.sound hx
  have ht : s.tasks = w.tasks := by
    have ht := (Holder.reinstate previous).act_tasks w.toService m
    rwa [hact] at ht
  cases hact
  refine ⟨⟨w.tasks, ht.symm, ?_⟩, fun hy => by cases hy⟩
  simp only [Service.reinstate]
  split
  · rename_i he
    rcases hr : w.register m previous with ⟨s', e | k⟩
    · exact l.refused hr
    · exact l.taken hr he hs fun _ _ => rfl
  · exact l

theorem strike (o : Orderly w) {id : String} (hx : w.holder? = some (.strike id))
    (hact : (Holder.strike id).act w.toService m = (s, x?, c?)) :
    Orderly { w with toService := s, holder? := x? } := by
  obtain ⟨tasks, hf, l⟩ := o.loose
  rw [hx] at hf
  have hf : w.tasks = tasks.erase id := hf
  cases hact
  refine ⟨⟨w.tasks, rfl, l.remove id ?_ fun k hk => ?_⟩, ?_⟩
  · intro t ht
    rw [hf, Table.get?_erase_self] at ht
    cases ht
  · rw [hf, Table.get?_erase, if_neg hk]
  · rintro y ⟨⟩
    trivial

end

theorem proceed (o : Orderly w) {x : Holder} {s : Service φ} {x? : Option Holder}
    (hx : w.holder? = some x) (hact : x.act w.toService m = (s, x?, c?)) :
    Orderly { w with toService := s, holder? := x? } := by
  cases x with
  | withdraw c t previous? => exact o.withdraw hx hact
  | install c t previous? => exact o.install hx hact
  | reinstate previous => exact o.reinstate hx hact
  | commit c t =>
    obtain ⟨tasks, hf, l⟩ := o.loose
    rw [hx] at hf
    cases hf
    cases hact
    exact ⟨⟨_, rfl, l⟩, fun hy => by cases hy⟩
  | remove id =>
    have l := o.loose_of_foreseen hx fun _ h => h
    cases hact
    refine ⟨⟨w.tasks, rfl, l⟩, ?_⟩
    rintro y ⟨⟩
    trivial
  | strike id => exact o.strike hx hact
  | forget id =>
    have l := o.loose_of_foreseen hx fun _ h => h
    cases hact
    exact ⟨⟨_, rfl, l⟩, fun hy => by cases hy⟩

theorem start [Fleet φ σ] {site : Site φ} (hsite : site.engine.size = 0) (owner : Nat)
    (options : Options) (m : Moment) : Orderly (start site owner options m : Busy φ σ) := by
  obtain ⟨as, r⟩ := run_start site owner options m
  exact ⟨⟨_, rfl, .of_lockstep (r.inLockstep hsite)⟩, fun hx => by cases hx⟩

theorem enter (o : Orderly w) (keyed : ∀ {k t}, w.tasks.get? k = some t → t.id = k)
    (hx : w.holder? = none) {r : Request} {x : Holder} (hr : r.enter w.tasks m = some x) :
    Orderly { w with holder? := some x } := by
  obtain ⟨tasks, hf, l⟩ := o.loose
  rw [hx] at hf
  cases hf
  refine ⟨⟨w.tasks, ?_, l⟩, ?_⟩
  · rcases Request.enter_cases keyed hr with ⟨_, _, _, rfl⟩ | ⟨_, _, -, rfl⟩ | ⟨_, -, rfl⟩ |
      ⟨_, rfl⟩ <;> rfl
  · rintro y ⟨⟩
    exact Request.sound keyed hr

theorem stamp (o : Orderly w) (hx : w.holder? = none) {id : String} {firedAt : Time.Instant}
    {s : Service φ} {t : Task} (hs : w.toService.stamp m id firedAt = some (s, t))
    (jobs : List Job) (firings : List (Stage σ)) : Orderly ⟨s, w.holder?, jobs, firings⟩ := by
  obtain ⟨tasks, hf, l⟩ := o.loose
  rw [hx] at hf ⊢
  cases hf
  obtain ⟨previous, hp, rfl, rfl, rfl⟩ := stamp_eq_some l.id_eq hs
  exact ⟨⟨_, rfl, l.stamp hp (some firedAt)⟩, fun hy => by cases hy⟩

theorem turn (o : Orderly w) (t : Turn) (jobs : List Job) :
    Orderly { w with engine := w.engine.turn t, jobs } := by
  obtain ⟨tasks, hf, l⟩ := o.loose
  exact ⟨⟨tasks, hf, l.turn t⟩, o.sound⟩

theorem step [Fleet φ σ] (o : Orderly w)
    (keyed : ∀ {k t}, w.tasks.get? k = some t → t.id = k) (hs : Step w c? w') : Orderly w' := by
  cases hs with
  | enter m r hx hr => exact o.enter keyed hx hr
  | proceed m hx hact => exact o.proceed hx hact
  | run m id firedAt hx hstamp => exact o.stamp hx hstamp _ _
  | runJob m firedAt hx hjobs howner hstamp => exact o.stamp hx hstamp _ _
  | turn hturn => exact o.turn _ _
  | collect hl =>
    have o' := o.turn .collect
    rw [hl] at o'
    exact o' _
  | _ => exact ⟨o.loose, o.sound⟩

end Orderly

variable [Fleet φ σ] {site : Site φ} {owner : Nat} {options : Options} {m : Moment}
  {log : List Change}

theorem Reached.orderly (hsite : site.engine.size = 0) (r : Reached site owner options m log w) :
    Orderly w := by
  induction r with
  | refl _ => exact .start hsite owner options m
  | step c hs _ ih => exact ih.step (Reached.tidy c).id_eq hs

end Busy

end Service

end Snapshots
