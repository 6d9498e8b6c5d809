import Mathlib.Data.List.Induction
import Snapshots.Proofs.Service.Orphans

/-! # Tasks as a replay of what was committed

Calls write back whole tasks that they copied before, and jobs hold copies that are older still. The
tasks are nevertheless what the committed changes make of the tasks of the file, one after the other
and each of the tasks that it finds.
-/

namespace Snapshots

open Time

namespace Change

def id : Change → String
  | created d createdBy now => (Task.ofDefinition d createdBy now).id
  | updated id .. => id
  | toggled id _ => id
  | deleted id => id
  | stamped id .. => id

/-- What a change makes of its task, which may be missing. -/
def edit : Change → Option Task → Option Task
  | created d createdBy now, _ => some (.ofDefinition d createdBy now)
  | updated _ d now, t? => t?.map (·.apply d now)
  | toggled _ now, t? => t?.map fun t => { t with enabled := !t.enabled, updatedAt := now }
  | deleted _, _ => none
  | stamped _ firedAt _, t? => t?.map fun t => { t with lastExecuted := some firedAt }

/-- The tasks after a change. -/
def onto (tasks : Table String Task) (c : Change) : Table String Task :=
  match c.edit (tasks.get? c.id) with
  | some t => tasks.insert c.id t
  | none => tasks.erase c.id

theorem get?_onto (tasks : Table String Task) (c : Change) (k : String) :
    (c.onto tasks).get? k = if k = c.id then c.edit (tasks.get? k) else tasks.get? k := by
  unfold onto
  split
  · rename_i t ht
    rw [Table.get?_insert]
    split
    · rename_i hk
      rw [hk, ht]
    · rfl
  · rename_i ht
    rw [Table.get?_erase]
    split
    · rename_i hk
      rw [hk, ht]
    · rfl

/-- What a change says of the last firing of its task: one that is created has not been fired. -/
def lastExecuted? : Change → Option (Option Instant)
  | created .. => some none
  | stamped _ firedAt _ => some (some firedAt)
  | _ => none

/-- What a change says of who created its task, and when. -/
def origin? : Change → Option (String × Instant)
  | created _ createdBy now => some (createdBy, now)
  | _ => none

/-- What a change makes of whether its task is enabled: an update whose definition leaves that open
keeps it. -/
def enabledAfter : Change → Option Bool → Option Bool
  | created .., _ => some true
  | updated _ d _, enabled? => enabled?.map d.enabled.getD
  | toggled .., enabled? => enabled?.map (!·)
  | deleted _, _ => none
  | stamped .., enabled? => enabled?

end Change

/-- The tasks after some changes, one after the other. -/
def replay (tasks : Table String Task) (log : List Change) : Table String Task :=
  log.foldl Change.onto tasks

@[simp] theorem replay_append (tasks : Table String Task) (log log' : List Change) :
    replay tasks (log ++ log') = replay (replay tasks log) log' :=
  List.foldl_append

/-- The changes of one task. -/
def changesOf (k : String) (log : List Change) : List Change :=
  log.filter (·.id = k)

theorem changesOf_append_singleton (k : String) (log : List Change) (c : Change) :
    changesOf k (log ++ [c]) = changesOf k log ++ if k = c.id then [c] else [] := by
  by_cases hk : k = c.id
  · simp [changesOf, hk]
  · simp [changesOf, hk, Ne.symm hk]

theorem get?_replay (tasks : Table String Task) (log : List Change) (k : String) :
    (replay tasks log).get? k =
      (changesOf k log).foldl (fun t? c => c.edit t?) (tasks.get? k) := by
  induction log using List.reverseRecOn with
  | nil => rfl
  | append_singleton log c ih =>
    rw [replay_append, changesOf_append_singleton, List.foldl_append, ← ih]
    refine (Change.get?_onto ..).trans ?_
    split <;> rfl

/-- A field of a task has the value that the latest change gave to it that gave it one. -/
theorem field_of_replay {α : Type} {f : Task → α} {g : Change → Option α}
    (hedit : ∀ c t? t, c.edit t? = some t → some (f t) = (g c).or (t?.map f))
    (tasks : Table String Task) (log : List Change) {k : String} {t : Task}
    (ht : (replay tasks log).get? k = some t) :
    some (f t) = ((changesOf k log).filterMap g).getLast?.or ((tasks.get? k).map f) := by
  rw [get?_replay] at ht
  generalize changesOf k log = changes at ht ⊢
  induction changes using List.reverseRecOn generalizing t with
  | nil => exact (congrArg (Option.map f) ht).symm
  | append_singleton changes c ih =>
    rw [List.foldl_append] at ht
    have hf := hedit c _ t ht
    cases hg : g c with
    | some a => simpa [hg] using hf
    | none =>
      rw [hg, Option.none_or] at hf
      obtain ⟨t', ht', hf'⟩ := Option.map_eq_some_iff.1 hf.symm
      simpa [hg, hf'] using ih ht'

theorem lastExecuted_of_replay (tasks : Table String Task) (log : List Change) {k : String}
    {t : Task} (ht : (replay tasks log).get? k = some t) :
    some t.lastExecuted = ((changesOf k log).filterMap Change.lastExecuted?).getLast?.or
      ((tasks.get? k).map Task.lastExecuted) := by
  refine field_of_replay (fun c t? t he => ?_) tasks log ht
  cases c <;> cases t? <;> cases he <;> rfl

theorem origin_of_replay (tasks : Table String Task) (log : List Change) {k : String}
    {t : Task} (ht : (replay tasks log).get? k = some t) :
    some (t.createdBy, t.createdAt) = ((changesOf k log).filterMap Change.origin?).getLast?.or
      ((tasks.get? k).map fun t => (t.createdBy, t.createdAt)) := by
  refine field_of_replay (f := fun t => (t.createdBy, t.createdAt)) (fun c t? t he => ?_)
    tasks log ht
  cases c <;> cases t? <;> cases he <;> rfl

theorem enabled_of_replay (tasks : Table String Task) (log : List Change) (k : String) :
    ((replay tasks log).get? k).map Task.enabled =
      (changesOf k log).foldl (fun enabled? c => c.enabledAfter enabled?)
        ((tasks.get? k).map Task.enabled) := by
  rw [get?_replay]
  refine (List.foldl_hom (Option.map Task.enabled) fun t? c => ?_).symm
  cases c <;> cases t? <;> rfl

namespace Service

variable {φ σ : Type} {tasks : Table String Task} {m : Moment}

theorem onto_eq_insert {c : Change} {t : Task} (h : c.edit (tasks.get? c.id) = some t) :
    c.onto tasks = tasks.insert c.id t := by
  simp only [Change.onto, h]

/-- The task that a call is about to put is what its change makes of the one that is there. -/
def Holder.Prepared (tasks : Table String Task) : Holder → Prop
  | withdraw c t _ => c.onto tasks = tasks.insert t.id t
  | install c t _ => c.onto tasks = tasks.insert t.id t
  | commit c t => c.onto tasks = tasks.insert t.id t
  | _ => True

theorem Request.prepared (keyed : ∀ {k t}, tasks.get? k = some t → t.id = k) {r : Request}
    {x : Holder} (h : r.enter tasks m = some x) : x.Prepared tasks := by
  rcases Request.enter_cases keyed h with ⟨d, createdBy, now, rfl⟩ | ⟨d, previous, hp, rfl⟩ |
    ⟨previous, hp, rfl⟩ | ⟨id, rfl⟩
  · exact onto_eq_insert rfl
  · exact onto_eq_insert (congrArg (Option.map _) hp)
  · exact onto_eq_insert (congrArg (Option.map _) hp)
  · trivial

theorem Holder.act_replay {x : Holder} {s s' : Service φ} {x? : Option Holder}
    {c? : Option Change} (h : x.Prepared s.tasks) (hact : x.act s m = (s', x?, c?)) :
    s'.tasks = replay s.tasks c?.toList ∧ ∀ y, x? = some y → y.Prepared s'.tasks := by
  have ht := x.act_tasks s m
  rw [hact] at ht
  cases x with
  | withdraw c t previous? =>
    cases hact
    refine ⟨rfl, fun y hy => ?_⟩
    split at hy
    · cases hy
      exact h
    · cases hy
      exact h
  | install c t previous? =>
    have hsame : s'.tasks = s.tasks := ht
    obtain ⟨rfl, ⟨k, -, rfl⟩ | ⟨e, -, rfl⟩⟩ := act_install hact
    · refine ⟨hsame, ?_⟩
      rintro y ⟨⟩
      rw [hsame]
      exact h
    · refine ⟨hsame, fun y hy => ?_⟩
      obtain ⟨_, _, rfl⟩ := Option.map_eq_some_iff.1 hy
      trivial
  | reinstate previous =>
    cases hact
    exact ⟨ht, fun y hy => by cases hy⟩
  | commit c t =>
    cases hact
    exact ⟨ht.trans h.symm, fun y hy => by cases hy⟩
  | remove id =>
    cases hact
    refine ⟨rfl, ?_⟩
    rintro y ⟨⟩
    trivial
  | strike id =>
    cases hact
    refine ⟨rfl, ?_⟩
    rintro y ⟨⟩
    trivial
  | forget id =>
    cases hact
    exact ⟨rfl, fun y hy => by cases hy⟩

theorem stamp_replay (keyed : ∀ {k t}, tasks.get? k = some t → t.id = k) {s s' : Service φ}
    (hs : s.tasks = tasks) {id : String} {firedAt : Instant} {t : Task}
    (h : s.stamp m id firedAt = some (s', t)) (scheduled : Bool) :
    s'.tasks = replay tasks [.stamped id firedAt scheduled] := by
  subst hs
  obtain ⟨previous, hp, rfl, rfl, rfl⟩ := stamp_eq_some keyed h
  exact (onto_eq_insert (c := .stamped previous.id firedAt scheduled)
    (congrArg (Option.map _) hp)).symm

namespace Busy

variable [Fleet φ σ] {site : Site φ} {owner : Nat} {options : Options} {log : List Change}
  {w w' : Busy φ σ} {c? : Option Change}

/-- Every step changes the tasks as the change does that it commits, and a call that goes on is
prepared for them. -/
theorem Step.replay (h : Tidy w) (hp : ∀ x, w.holder? = some x → x.Prepared w.tasks)
    (hs : Step w c? w') :
    w'.tasks = replay w.tasks c?.toList ∧ ∀ x, w'.holder? = some x → x.Prepared w'.tasks := by
  cases hs with
  | enter m r hx hr =>
    refine ⟨rfl, ?_⟩
    rintro x ⟨⟩
    exact Request.prepared h.id_eq hr
  | proceed m hx hact => exact Holder.act_replay (hp _ hx) hact
  | run m id firedAt hx hstamp =>
    refine ⟨stamp_replay h.id_eq rfl hstamp false, fun x hx' => ?_⟩
    rw [hx] at hx'
    cases hx'
  | runJob m firedAt hx hjobs howner hstamp =>
    refine ⟨stamp_replay h.id_eq rfl hstamp true, fun x hx' => ?_⟩
    rw [hx] at hx'
    cases hx'
  | _ => exact ⟨rfl, hp⟩

theorem Reached.replayed {m : Moment} (r : Reached site owner options m log w) :
    w.tasks = replay (start site owner options m : Busy φ σ).tasks log ∧
      ∀ x, w.holder? = some x → x.Prepared w.tasks := by
  induction r with
  | refl _ => exact ⟨rfl, fun x hx => by cases hx⟩
  | step c hs _ ih =>
    obtain ⟨ht, hp⟩ := hs.replay (Reached.tidy c) ih.2
    rw [replay_append, ← ih.1]
    exact ⟨ht, hp⟩

theorem Step.firing_frame (hs : Step w c? w') (hne : w'.firings ≠ w.firings)
    (hle : w'.firings.length ≤ w.firings.length) : c? = none ∧ w'.tasks = w.tasks := by
  cases hs with
  | proceed m hx hact => exact absurd rfl hne
  | run m id firedAt hx hstamp => simp at hle
  | runJob m firedAt hx hjobs howner hstamp => simp at hle
  | _ => exact ⟨rfl, rfl⟩

/-- Whatever firings, jobs and calls went on at the same time: the tasks are at any moment what the
committed changes made, in their order, of the tasks of the file. A task was last fired when the
latest stamp since its creation says, it is enabled as its changes in turn leave it, and a firing
under way or at its end does not write it. -/
theorem Reached.tasks_eq_replay {m : Moment} (r : Reached site owner options m log w) :
    w.tasks = replay (Service.start site owner options m).tasks log ∧
      (∀ {id t}, w.tasks.get? id = some t → t.id = id ∧
        some t.lastExecuted = ((changesOf id log).filterMap Change.lastExecuted?).getLast?.or
          (((Service.start site owner options m).tasks.get? id).map Task.lastExecuted) ∧
        some (t.createdBy, t.createdAt) =
          ((changesOf id log).filterMap Change.origin?).getLast?.or
            (((Service.start site owner options m).tasks.get? id).map fun t =>
              (t.createdBy, t.createdAt)) ∧
        some t.enabled = (changesOf id log).foldl (fun enabled? c => c.enabledAfter enabled?)
          (((Service.start site owner options m).tasks.get? id).map Task.enabled)) ∧
      ∀ {c? w'}, Step w c? w' → w'.tasks = replay w.tasks c?.toList ∧
        (w'.firings ≠ w.firings → w'.firings.length ≤ w.firings.length →
          c? = none ∧ w'.tasks = w.tasks) := by
  obtain ⟨htasks, hprepared⟩ := r.replayed
  refine ⟨htasks, fun ht => ⟨r.tidy.id_eq ht, ?_, ?_, ?_⟩, fun hs => ⟨?_, hs.firing_frame⟩⟩
  · rw [htasks] at ht
    exact lastExecuted_of_replay _ log ht
  · rw [htasks] at ht
    exact origin_of_replay _ log ht
  · rw [htasks] at ht
    exact (congrArg (Option.map Task.enabled) ht).symm.trans (enabled_of_replay _ log _)
  · exact (hs.replay r.tidy hprepared).1

/-- A task that was created again has not been fired, though a firing has ended since that was under
way before. -/
theorem Reached.tasks_eq_replay_recreated :
    Reached Sample.equipped 0 Sample.options Sample.moment Sample.log Sample.ended ∧
      Sample.ended.tasks = replay Sample.started.tasks Sample.log ∧
      ∃ t, Sample.ended.tasks.get? Sample.id = some t ∧ t.lastExecuted = none := by
  have r := Sample.reached_ended
  obtain ⟨htasks, hfields, -⟩ := r.tasks_eq_replay
  obtain ⟨t, ht⟩ : ∃ t, Sample.ended.tasks.get? Sample.id = some t :=
    ⟨.ofDefinition Sample.definition "alice" Sample.moment.now, by decide +kernel⟩
  obtain ⟨-, hlast, -⟩ := hfields ht
  refine ⟨r, htasks, t, ht, ?_⟩
  have hlog : ((changesOf Sample.id Sample.log).filterMap Change.lastExecuted?).getLast? =
      some none := by
    decide +kernel
  rw [hlog] at hlast
  exact Option.some.inj hlast

end Busy

end Service

end Snapshots
