import Snapshots.Proofs.Firing.History
import Snapshots.Proofs.Service.Succession

/-! # The last firing of a task

A task holds the time of its last firing, and the history holds what the firing did. The time is
noted when the firing begins, and the history is told when it ends. If each firing ends before a
call or another firing begins, both tell of the same firing as soon as it has ended, however the
task was updated, or deleted and created again, before.
-/

namespace Snapshots

open Firing Timer Time

namespace Service

variable {φ σ : Type}

theorem status_eq {s : Service φ} {id : String} {t : Task} (ht : s.tasks.get? id = some t) :
    s.status id = .ok
      ⟨t.id, t.enabled, t.lastExecuted, s.handles.next? s.engine t.id,
        (s.history.latest? id).bind (·.errorSummary?)⟩ := by
  simp [status, get, find, ht, view, Except.map]

/-- The task that a call is about to put. -/
def Holder.draft? : Holder → Option Task
  | withdraw _ t _ => some t
  | install _ t _ => some t
  | reinstate _ => none
  | commit _ t => some t
  | remove _ => none
  | strike _ => none
  | forget _ => none

theorem Holder.draft?_act {s s' : Service φ} {m : Moment} {x x' : Holder} {c? : Option Change}
    {t : Task} (h : x.act s m = (s', some x', c?)) (ht : x'.draft? = some t) :
    x.draft? = some t := by
  cases x with
  | withdraw c u previous? =>
    simp only [act, Prod.mk.injEq, Option.some.injEq] at h
    obtain ⟨-, rfl, -⟩ := h
    split at ht <;> exact ht
  | install c u previous? =>
    obtain ⟨-, ⟨k, -, hx⟩ | ⟨e, -, hx⟩⟩ := act_install h
    · cases hx
      exact ht
    · cases previous? with
      | none => cases hx
      | some previous =>
        cases hx
        cases ht
  | reinstate previous => cases h
  | commit c u => cases h
  | remove id =>
    cases h
    cases ht
  | strike id =>
    cases h
    cases ht
  | forget id => cases h

theorem Request.draft?_enter {tasks : Table String Task}
    (keyed : ∀ {k t}, tasks.get? k = some t → t.id = k) {m : Moment} {r : Request} {x : Holder}
    {t : Task} (h : r.enter tasks m = some x) (ht : x.draft? = some t) :
    tasks.get? t.id = none ∨
      ∃ previous, tasks.get? t.id = some previous ∧ t.lastExecuted = previous.lastExecuted := by
  cases r with
  | create d createdBy now =>
    simp only [enter] at h
    split at h
    · cases h
    · rename_i hnew
      cases h
      cases ht
      exact .inl (by simpa [Table.contains] using hnew)
  | update id d =>
    obtain ⟨previous, hp, rfl⟩ := Option.map_eq_some_iff.1 h
    obtain rfl := keyed hp
    cases ht
    exact .inr ⟨previous, hp, rfl⟩
  | toggle id =>
    obtain ⟨previous, hp, rfl⟩ := Option.map_eq_some_iff.1 h
    obtain rfl := keyed hp
    cases ht
    exact .inr ⟨previous, hp, rfl⟩
  | delete id =>
    obtain ⟨_, -, rfl⟩ := Option.map_eq_some_iff.1 h
    cases ht

namespace Busy

variable {site : Site φ} {owner : Nat} {options : Options} {m : Moment} {log : List Change}
  {w w' : Busy φ σ} {l l' : List (Stage σ)} {f g : Stage σ} {id : String} {t : Task}
  {firedAt : Instant}

/-- A firing goes on alone: no call has the lock then, and no other firing goes on. -/
def InTurn (w : Busy φ σ) : Prop :=
  w.firings = [] ∨ w.holder? = none ∧ ∃ f, w.firings = [f]

theorem InTurn.one {s : Service φ} {jobs : List Job} : InTurn ⟨s, none, jobs, [f]⟩ :=
  .inr ⟨rfl, f, rfl⟩

theorem InTurn.firings_eq (h : w.InTurn) {x : Holder} (hx : w.holder? = some x) :
    w.firings = [] := by
  rcases h with h | ⟨hnone, -⟩
  · exact h
  · rw [hnone] at hx
    cases hx

theorem InTurn.alone (h : w.InTurn) (hf : w.firings = l ++ f :: l') : l = [] ∧ l' = [] := by
  rcases h with h | ⟨-, g, h⟩
  · simp [h] at hf
  · rw [h] at hf
    cases l with
    | nil =>
      cases hf
      exact ⟨rfl, rfl⟩
    | cons f' l => simp at hf

theorem shots_eq_nil (hf : w.firings = []) : w.shots = [] := by
  rw [shots, hf]
  rfl

theorem shots_replaced (hf : w.firings = l ++ f :: l') (hg : w'.firings = l ++ g :: l')
    (hfg : g.shot? = f.shot?) : w'.shots = w.shots := by
  simp only [shots, hf, hg, List.filterMap_append, List.filterMap_cons, hfg]

theorem shots_dropped (hf : w.firings = l ++ f :: l') (hg : w'.firings = l ++ l')
    (hnone : f.shot? = none) : w'.shots = w.shots := by
  rw [shots, shots, hf, hg, List.filterMap_append, List.filterMap_append,
    List.filterMap_cons_none hnone]

/-- A task has the time of the latest firing in the history of an identity, if there is one. -/
def TellsLatest (h : History) (id : String) (t : Task) : Prop :=
  ∀ r, h.latest? id = some r → t.lastExecuted = some r.firedAt

/-- A task has the time of its firing under way, or else that of the latest in the history. So has
a task that a call is about to put. -/
structure Coherent (w : Busy φ σ) : Prop where
  begun : ∀ s ∈ w.shots, ∀ {t}, w.tasks.get? s.1.id = some t → t.lastExecuted = some s.2
  ended : ∀ {k t}, (∀ s ∈ w.shots, s.1.id ≠ k) → w.tasks.get? k = some t →
    TellsLatest w.history k t
  draft : ∀ {x t}, w.holder? = some x → x.draft? = some t → TellsLatest w.history t.id t

theorem Tidy.latest?_eq_none (h : Tidy w) (hx : w.holder? = none) (hf : w.firings = [])
    (ht : w.tasks.get? id = none) : w.history.latest? id = none := by
  cases hr : w.history.latest? id with
  | none => rfl
  | some r =>
    rcases h.attended (History.forTask_ne_nil_of_latest? hr) with ⟨t, ht'⟩ | ⟨f, hmem, -⟩ | hk
    · rw [ht] at ht'
      cases ht'
    · rw [hf] at hmem
      cases hmem
    · simp [Deleting, hx] at hk

namespace Coherent

theorem start (site : Site φ) (owner : Nat) (options : Options) (m : Moment) :
    Coherent (start site owner options m : Busy φ σ) where
  begun s hs := by cases hs
  ended {k t} _ _ r hr :=
    absurd (forTask_start site owner options m k) (History.forTask_ne_nil_of_latest? hr)
  draft hx := by cases hx

theorem of_unheld (hx : w.holder? = none)
    (begun : ∀ s ∈ w.shots, ∀ {t}, w.tasks.get? s.1.id = some t → t.lastExecuted = some s.2)
    (ended : ∀ {k t}, (∀ s ∈ w.shots, s.1.id ≠ k) → w.tasks.get? k = some t →
      TellsLatest w.history k t) : Coherent w where
  begun := begun
  ended := ended
  draft hx' := by
    rw [hx] at hx'
    cases hx'

theorem keep (h : Coherent w) (ht : w'.tasks = w.tasks) (hh : w'.history = w.history)
    (hs : w'.shots = w.shots)
    (hx : ∀ {x' t}, w'.holder? = some x' → x'.draft? = some t →
      ∃ x, w.holder? = some x ∧ x.draft? = some t) : Coherent w' := by
  constructor
  · rw [hs, ht]
    exact h.begun
  · rw [hs, ht, hh]
    exact h.ended
  · intro x' t hx' hd'
    obtain ⟨x, hx, hd⟩ := hx hx' hd'
    rw [hh]
    exact h.draft hx hd

theorem ended_of_idle (h : Coherent w) (hf : w.firings = []) (ht : w.tasks.get? id = some t) :
    TellsLatest w.history id t := by
  refine h.ended ?_ ht
  rw [shots_eq_nil hf]
  exact fun s hs => absurd hs List.not_mem_nil

theorem enter (h : Coherent w) (tidy : Tidy w) (hx : w.holder? = none) (hf : w.firings = [])
    {r : Request} {x : Holder} (henter : r.enter w.tasks m = some x) :
    Coherent { w with holder? := some x } where
  begun := h.begun
  ended := h.ended
  draft {x' t} hx' hd rec hrec := by
    cases hx'
    rcases Request.draft?_enter tidy.id_eq henter hd with hnew | ⟨previous, hp, hlast⟩
    -- A new task has no history, not even that of a task of its identity that was deleted.
    · rw [tidy.latest?_eq_none hx hf hnew] at hrec
      cases hrec
    · rw [hlast]
      exact h.ended_of_idle hf hp rec hrec

theorem put (h : Coherent w) (htold : TellsLatest w.history t.id t) (hf : w.firings = [])
    (ht : w'.tasks = w.tasks.insert t.id t) (hh : w'.history = w.history)
    (hf' : w'.firings = []) (hx' : w'.holder? = none) : Coherent w' := by
  apply of_unheld hx'
  · rw [shots_eq_nil hf']
    exact fun s hs => absurd hs List.not_mem_nil
  · intro k u _ hu
    rw [ht, Table.get?_insert] at hu
    rw [hh]
    split at hu
    · rename_i hk
      cases hu
      rw [hk]
      exact htold
    · exact h.ended_of_idle hf hu

theorem erase (h : Coherent w) (id : String) (ht : w'.tasks = w.tasks.erase id)
    (hh : w'.history = w.history) (hs : w'.shots = w.shots)
    (hx' : ∀ {x'}, w'.holder? = some x' → x'.draft? = none) : Coherent w' := by
  have hold : ∀ {k u}, w'.tasks.get? k = some u → w.tasks.get? k = some u := by
    intro k u hu
    rw [ht, Table.get?_erase] at hu
    split at hu
    · cases hu
    · exact hu
  constructor
  · rw [hs]
    exact fun s hmem u hu => h.begun s hmem (hold hu)
  · rw [hs, hh]
    exact fun hk hu => h.ended hk (hold hu)
  · intro x u hx hd
    rw [hx' hx] at hd
    cases hd

theorem forget (h : Coherent w) (id : String) (ht : w'.tasks = w.tasks)
    (hh : w'.history = w.history.forget id) (hs : w'.shots = w.shots)
    (hx' : ∀ {x'}, w'.holder? = some x' → w.holder? = some x') : Coherent w' := by
  have hold : ∀ {k u}, TellsLatest w.history k u → TellsLatest w'.history k u := by
    intro k u hu r hr
    rw [hh, History.latest?_forget] at hr
    split at hr
    · cases hr
    · exact hu r hr
  constructor
  · rw [hs, ht]
    exact h.begun
  · rw [hs, ht]
    exact fun hk hu => hold (h.ended hk hu)
  · exact fun hx hd => hold (h.draft (hx' hx) hd)

theorem stamp (h : Coherent w) {fired : Task} (hid : fired.id = t.id)
    (hlast : t.lastExecuted = some firedAt) (hf : w.firings = [])
    (ht : w'.tasks = w.tasks.insert t.id t) (hh : w'.history = w.history)
    (hf' : w'.firings = [.stamped fired firedAt]) (hx' : w'.holder? = none) : Coherent w' := by
  have hshots : w'.shots = [(fired, firedAt)] := by
    rw [shots, hf']
    rfl
  apply of_unheld hx'
  · rw [hshots]
    rintro s hs u hu
    rw [List.mem_singleton.1 hs] at hu ⊢
    rw [ht, hid, Table.get?_insert_self] at hu
    cases hu
    exact hlast
  · intro k u hk hu
    have hne : k ≠ t.id := by
      rw [hshots] at hk
      exact (hid ▸ hk _ (List.mem_singleton_self _)).symm
    rw [ht, Table.get?_insert, if_neg hne] at hu
    rw [hh]
    exact h.ended_of_idle hf hu

theorem record (h : Coherent w) {flight : Flight σ} {finishedAt : Instant} {r : Record}
    (hr : flight.record? finishedAt = some r) (hf : w.firings = [.working flight])
    (ht : w'.tasks = w.tasks) (hh : w'.history = w.history.record r)
    (hf' : w'.firings = [.recorded r.taskId]) (hx' : w'.holder? = none) : Coherent w' := by
  obtain ⟨hid, hfired⟩ := Flight.of_record? hr
  have hshots : w.shots = [(flight.task, flight.firedAt)] := by
    rw [shots, hf]
    rfl
  have hshots' : w'.shots = [] := by
    rw [shots, hf']
    rfl
  apply of_unheld hx'
  · rw [hshots']
    exact fun s hs => absurd hs List.not_mem_nil
  · intro k u _ hu rec hrec
    rw [ht] at hu
    rw [hh] at hrec
    by_cases hk : k = r.taskId
    -- The time of the firing was noted when it began.
    · rw [hk, History.latest?_record] at hrec
      cases hrec
      rw [hk, hid] at hu
      rw [hfired]
      refine h.begun (flight.task, flight.firedAt) ?_ hu
      rw [hshots]
      exact List.mem_singleton_self _
    · rw [History.latest?_record_of_ne hk] at hrec
      refine h.ended ?_ hu rec hrec
      rw [hshots]
      exact List.forall_mem_singleton.2 (hid ▸ Ne.symm hk)

theorem proceed (h : Coherent w) {x : Holder} {s : Service φ} {x? : Option Holder}
    {c? : Option Change} (hf : w.firings = []) (hx : w.holder? = some x)
    (hact : x.act w.toService m = (s, x?, c?)) :
    Coherent { w with toService := s, holder? := x? } := by
  have ht := x.act_tasks w.toService m
  have hh := x.act_history w.toService m
  have hd : ∀ {x' t}, x? = some x' → x'.draft? = some t →
      ∃ x, w.holder? = some x ∧ x.draft? = some t := by
    rintro x' t rfl hd
    exact ⟨x, hx, Holder.draft?_act hact hd⟩
  rw [hact] at ht hh
  cases x with
  | withdraw c t previous? => exact h.keep ht hh rfl hd
  | install c t previous? => exact h.keep ht hh rfl hd
  | reinstate previous => exact h.keep ht hh rfl hd
  | commit c t =>
    cases hact
    exact h.put (h.draft hx rfl) hf ht hh hf rfl
  | remove id =>
    cases hact
    refine h.erase id ht hh rfl ?_
    rintro x' hx'
    cases hx'
    rfl
  | strike id => exact h.keep ht hh rfl hd
  | forget id =>
    cases hact
    refine h.forget id ht hh rfl ?_
    rintro x' hx'
    cases hx'

variable [Fleet φ σ]

/-- Every step from one state in turn to another keeps tasks and history coherent. -/
theorem step (h : Coherent w) (tidy : Tidy w) (hw : w.InTurn) {c? : Option Change}
    (hs : Step w c? w') (hw' : w'.InTurn) : Coherent w' := by
  have hsame : ∀ {x t}, w.holder? = some x → x.draft? = some t →
      ∃ x, w.holder? = some x ∧ x.draft? = some t := fun hx hd => ⟨_, hx, hd⟩
  cases hs with
  | enter m r hx henter => exact h.enter tidy hx (hw'.firings_eq (x := _) rfl) henter
  | proceed m hx hact => exact h.proceed (hw.firings_eq hx) hx hact
  | run m id firedAt hx hstamp =>
    obtain ⟨previous, hp, -, rfl, rfl⟩ := stamp_eq_some tidy.id_eq hstamp
    obtain ⟨hf, -⟩ := hw'.alone (l := w.firings) rfl
    exact h.stamp rfl rfl hf rfl rfl (by rw [hf]; rfl) hx
  | @runJob s t jobs job jobs' m firedAt hx hjobs howner hstamp =>
    obtain ⟨previous, hp, hid, rfl, rfl⟩ := stamp_eq_some tidy.id_eq hstamp
    obtain ⟨hf, -⟩ := hw'.alone (l := w.firings) rfl
    exact h.stamp (t := { previous with lastExecuted := some firedAt }) hid.symm rfl hf rfl rfl
      (by rw [hf]; rfl) hx
  | skipJob hx hjobs hgone => exact h.keep rfl rfl rfl hsame
  | launch hf => exact h.keep rfl rfl (shots_replaced hf rfl rfl) hsame
  | work unit hf => exact h.keep rfl rfl (shots_replaced hf rfl (shot?_step ..)) hsame
  | @record fs f fs' r finishedAt hf hr =>
    obtain ⟨rfl, rfl⟩ := hw.alone hf
    rcases hw with hnil | ⟨hx, -⟩
    · rw [hnil] at hf
      cases hf
    · exact h.record hr hf rfl rfl rfl hx
  | find hx hf hid => exact h.keep rfl rfl (shots_dropped hf rfl rfl) hsame
  | miss hx hf hid => exact h.keep rfl rfl (shots_replaced hf rfl rfl) hsame
  | forget hf => exact h.forget _ rfl rfl (shots_dropped hf rfl rfl) fun hx => hx
  | change fleet => exact h.keep rfl rfl rfl hsame
  | turn hturn => exact h.keep rfl rfl rfl hsame
  | collect hl => exact h.keep rfl rfl rfl hsame
  | fire hm hjob => exact h.keep rfl rfl rfl hsame

end Coherent

variable [Fleet φ σ]

theorem Course.coherent (c : Course InTurn (Busy.start site owner options m) log w) :
    Coherent w := by
  induction c with
  | refl _ => exact .start site owner options m
  | step c hs hw' ih => exact ih.step c.reached.tidy c.last hs hw'

theorem Step.notes {c? : Option Change} (hs : Step w c? w') :
    w'.history = w.history ∨ ∃ n, w'.history = w.history.note n := by
  cases hs with
  | @proceed x s x? c? m hx hact =>
    have hh := x.act_history w.toService m
    rw [hact] at hh
    cases x with
    | forget id => exact .inr ⟨.forgotten id, hh⟩
    | _ => exact .inl hh
  | run m id firedAt hx hstamp =>
    obtain ⟨t, -, hstamp⟩ := Option.map_eq_some_iff.1 hstamp
    cases hstamp
    exact .inl rfl
  | runJob m firedAt hx hjobs howner hstamp =>
    obtain ⟨t, -, hstamp⟩ := Option.map_eq_some_iff.1 hstamp
    cases hstamp
    exact .inl rfl
  | @record fs f fs' r finishedAt hf hr => exact .inr ⟨.fired r, rfl⟩
  | @forget fs id fs' hf => exact .inr ⟨.forgotten id, rfl⟩
  | _ => exact .inl rfl

theorem Course.history_eq {p : Busy φ σ → Prop}
    (c : Course p (Busy.start site owner options m) log w) :
    ∃ notes, w.history = .ofLog options.historyLimit notes := by
  refine c.keeps (q := fun _ w => ∃ notes, w.history = .ofLog options.historyLimit notes) ?_ ?_
  · exact ⟨[], history_foldl_restore ..⟩
  · rintro log w c? w' ⟨notes, hnotes⟩ hs
    rcases hs.notes with hh | ⟨n, hh⟩
    · exact ⟨notes, hh.trans hnotes⟩
    · exact ⟨notes ++ [n], by rw [hh, hnotes, History.ofLog_append]⟩

theorem Course.run_through {s s' : Service φ} {jobs : List Job} {works : List (Work φ)} {fleet : φ}
    {flight : Flight σ} {finishedAt : Instant} {r : Record}
    (c : Course InTurn w log ⟨s, none, jobs, []⟩) (hstamp : s.stamp m id firedAt = some (s', t))
    (hwork : workThrough s'.fleet (s'.launch t firedAt) works = (fleet, flight))
    (hr : flight.record? finishedAt = some r) :
    Course InTurn w (log ++ [.stamped id firedAt false])
      ⟨({ s' with fleet }.conclude r).settle r.taskId, none, jobs, []⟩ := by
  have hbegun : Course InTurn w (log ++ [.stamped id firedAt false])
      ⟨s', none, jobs, [.stamped t firedAt]⟩ :=
    c.step (.run m id firedAt rfl hstamp) .one
  have hlaunched := hbegun.quiet (.launch (List.nil_append _).symm) .one
  have hworked := hlaunched.works (l := []) (fun _ _ => .one) hwork
  exact hworked.ends (l := []) (fun _ _ => .one) (fun _ => .inl rfl) hr

/-- If each firing ends before a call or another firing begins, the time of the last firing in a
task and the history of the task tell of the same firing, whatever calls, firings and turns of the
clock and of the clusters there were. While a firing of the task is under way, the task has the time
of that. Else it has the time of the newest firing in its history, if there is one. The status of
the task combines this time with the failures of that newest firing. All firings that are kept for
the task are its own, and there are no more than fit. -/
theorem Course.lastExecuted_eq_latest (c : Course InTurn (Busy.start site owner options m) log w)
    (id : String) :
    (∀ r ∈ w.history.forTask id, r.taskId = id) ∧
      (w.history.forTask id).length ≤ max options.historyLimit 1 ∧
      ∀ t, w.tasks.get? id = some t →
        (∀ s ∈ w.shots, s.1.id = id → t.lastExecuted = some s.2) ∧
        ((∀ s ∈ w.shots, s.1.id ≠ id) → ∀ r rs, w.history.forTask id = r :: rs →
          t.lastExecuted = some r.firedAt) ∧
        ∃ status, w.toService.status id = .ok status ∧ status.id = id ∧
          status.lastExecuted = t.lastExecuted ∧
          status.errorMessage = (w.history.forTask id).head?.bind (·.errorSummary?) := by
  obtain ⟨notes, hnotes⟩ := c.history_eq
  have h := c.coherent
  have tidy := c.reached.tidy
  refine ⟨?_, ?_, fun t ht => ⟨?_, ?_, ?_⟩⟩
  · rw [hnotes]
    exact fun r hr => History.taskId_of_mem_ofLog hr
  · rw [hnotes]
    exact History.length_ofLog_le
  · rintro s hs rfl
    exact h.begun s hs ht
  · intro hs r rs hr
    refine h.ended hs ht r ?_
    rw [History.latest?_eq_head?, hr]
    rfl
  · exact ⟨_, status_eq ht, tidy.id_eq ht, rfl, by rw [History.latest?_eq_head?]⟩

end Busy

end Service

namespace Sample

open Service Service.Busy

def through : Cluster.Memory × Flight Nat :=
  workThrough running.fleet flight [.step 0, .step 0, .step 0]

def told : Busy Cluster.Memory Nat :=
  ⟨{ running with fleet := through.1 }.conclude record, none, [], []⟩

theorem course_told : Course InTurn (Busy.start equipped 0 options moment)
    [.created definition "alice" moment.now, .stamped id moment.now false] told := by
  let t := Task.ofDefinition definition "alice" moment.now
  let made : Change := .created definition "alice" moment.now
  have hstart : Course InTurn (Busy.start (σ := Nat) equipped 0 options moment) []
      ⟨started, none, [], []⟩ :=
    .refl (.inl rfl)
  have hnew : started.tasks.contains t.id = false := by decide +kernel
  have henter : (Request.create definition "alice" moment.now).enter started.tasks moment =
      some (.withdraw made t none) := by
    rw [Request.enter, hnew]
    rfl
  have hentered := hstart.quiet (.enter moment _ rfl henter) (.inl rfl)
  have hwithdrawn := hentered.quiet (.proceed moment rfl rfl) (.inl rfl)
  have hok : (started.create moment definition "alice").2.isOk = true := by decide +kernel
  rcases started.create_cases moment definition "alice" with
    ⟨e, -, h, -⟩ | ⟨-, -, ⟨s, e, -, h, -⟩ | ⟨s, k, hr, hcreate, -⟩⟩
  · rw [h] at hok
    cases hok
  · rw [h] at hok
    cases hok
  · have hact : (Holder.install made t none).act (started.unregister t.id) moment =
        (s, some (.commit made t), none) := by
      rw [Holder.act, register_unregister, hr]
    have hinstalled := hwithdrawn.quiet (.proceed moment rfl hact) (.inl rfl)
    have hcreated := hinstalled.step (.proceed moment rfl rfl) (.inl rfl)
    rw [← hcreate] at hcreated
    have hget : (started.create moment definition "alice").1.tasks.get? id = some t := by
      decide +kernel
    have hstamp : (started.create moment definition "alice").1.stamp moment id moment.now =
        some (running, stamped) := by
      rw [stamp, hget]
      rfl
    have hrecord : through.2.record? moment.now = some record := by decide +kernel
    have hthere :
        ({ running with fleet := through.1 }.conclude record).tasks.contains record.taskId =
          true := by
      decide +kernel
    have hrun := hcreated.run_through hstamp (Prod.mk.eta (p := through)).symm hrecord
    rwa [settle, if_pos hthere] at hrun

end Sample

/-- The task and its history tell of the run. -/
theorem Service.Busy.Course.lastExecuted_eq_latest_told :
    Course InTurn (Busy.start Sample.equipped 0 Sample.options Sample.moment)
        [.created Sample.definition "alice" Sample.moment.now,
          .stamped Sample.id Sample.moment.now false] Sample.told ∧
      Sample.told.tasks.get? Sample.id = some Sample.stamped ∧
      Sample.told.history.forTask Sample.id = [Sample.record] ∧
      Sample.stamped.lastExecuted = some Sample.record.firedAt ∧
      ∃ status, Sample.told.toService.status Sample.id = .ok status ∧
        status.lastExecuted = some Sample.record.firedAt ∧ status.errorMessage = none := by
  have ht : Sample.told.tasks.get? Sample.id = some Sample.stamped := by decide +kernel
  have hr : Sample.told.history.forTask Sample.id = [Sample.record] := by decide +kernel
  obtain ⟨-, -, h⟩ := Course.lastExecuted_eq_latest Sample.course_told Sample.id
  obtain ⟨-, hlast, status, hstatus, -, hsame, herror⟩ := h _ ht
  have hlast := hlast (fun s hs => by cases hs) _ _ hr
  refine ⟨Sample.course_told, ht, hr, hlast, status, hstatus, hsame.trans hlast, ?_⟩
  rw [herror, hr]
  decide +kernel

end Snapshots
