import Snapshots.Proofs.Service.Mirror

/-! # Services that follow each other

A service may be replaced by another over the same timer, files and clusters, and its jobs and
firings may go on at the side of the new one. The process may end, even while it saves, and start
again with an empty timer. A run lists the firings that began, with their tasks as they were fired.
-/

namespace Snapshots

open Firing Timer Time

namespace Service

variable {φ σ : Type}

theorem mem_of_mem_replaced {α : Type} {l l' : List α} {a b c : α} (h : c ∈ l ++ b :: l') :
    c ∈ l ++ a :: l' ∨ c = b := by
  simp only [List.mem_append, List.mem_cons] at h ⊢
  rcases h with h | rfl | h
  · exact .inl (.inl h)
  · exact .inr rfl
  · exact .inl (.inr (.inr h))

theorem mem_of_mem_dropped {α : Type} {l l' : List α} {a c : α} (h : c ∈ l ++ l') :
    c ∈ l ++ a :: l' :=
  List.mem_append.2 ((List.mem_append.1 h).imp_right (List.mem_cons_of_mem _))

theorem forall_replaced {α : Type} {P : α → Prop} {l ws ws' : List α} {w w' : α}
    (hl : l = ws ++ w :: ws') (h : ∀ v ∈ l, P v) (hw : P w → P w') :
    ∀ v ∈ ws ++ w' :: ws', P v := by
  subst hl
  intro v hv
  rcases mem_of_mem_replaced hv with hv | rfl
  · exact h v hv
  · exact hw (h w List.mem_append_cons_self)

def Stage.shot? : Stage σ → Option (Task × Instant)
  | stamped t firedAt => some (t, firedAt)
  | working f => some (f.task, f.firedAt)
  | recorded _ => none
  | orphaned _ => none

namespace Busy

def on (w : Busy φ σ) (site : Site φ) : Busy φ σ :=
  { w with engine := site.engine, files := site.files, fleet := site.fleet }

/-- The firings that have not ended. -/
def shots (w : Busy φ σ) : List (Task × Instant) :=
  w.firings.filterMap Stage.shot?

theorem mem_shots_iff {w : Busy φ σ} {shot : Task × Instant} :
    shot ∈ w.shots ↔ ∃ x ∈ w.firings, x.shot? = some shot :=
  List.mem_filterMap

def begun (w w' : Busy φ σ) : List (Task × Instant) :=
  (w'.firings.drop w.firings.length).filterMap Stage.shot?

theorem begun_of_length_le {w w' : Busy φ σ} (h : w'.firings.length ≤ w.firings.length) :
    w.begun w' = [] := by
  rw [begun, List.drop_eq_nil_of_le h]
  rfl

theorem begun_of_append {w w' : Busy φ σ} {x : Stage σ} (h : w'.firings = w.firings ++ [x]) :
    w.begun w' = x.shot?.toList := by
  rw [begun, h, List.drop_left]
  cases hx : x.shot? <;> simp [hx]

theorem mem_begun_of_append {w w' : Busy φ σ} {t : Task} {firedAt : Instant}
    (h : w'.firings = w.firings ++ [.stamped t firedAt]) : (t, firedAt) ∈ w.begun w' := by
  rw [begun_of_append h]
  exact List.mem_singleton_self _

end Busy

theorem Busy.Saving.unlocked {w w₁ : Busy φ σ} (h : w.Saving w₁) (hx : w.holder? = none) :
    w₁.holder? = none := by
  cases h with
  | commit => rfl
  | strike hx' =>
    rw [hx] at hx'
    cases hx'
  | run => exact hx
  | runJob => exact hx

/-- Services at a site: the latest, and those before it whose jobs or firings may go on. What they
hold of the site themselves may be out of date. -/
structure Succession (φ σ : Type) where
  site : Site φ
  services : List (Busy φ σ)

variable [Fleet φ σ]

theorem Busy.Step.options_eq {w w' : Busy φ σ} {c? : Option Change} (hs : w.Step c? w') :
    w'.options = w.options := by
  rcases hs.saving_or_quiet with ⟨w₁, m, hsaving, rfl⟩ | hq
  · exact hsaving.frame.1
  · exact hq.options_eq

namespace Busy

theorem shot?_step (fleet : φ) (f : Flight σ) (unit : Nat) :
    Stage.shot? (.working (f.step fleet unit).2) = some (f.task, f.firedAt) := by
  unfold Flight.step
  split <;> rfl

/-- How a firing came to be where it is after a step. -/
inductive Brought (w w' : Busy φ σ) : Stage σ → Prop where
  | kept {x} : x ∈ w.firings → Brought w w' x
  | run {m id firedAt s t} : w.toService.stamp m id firedAt = some (s, t) →
      (t, firedAt) ∈ w.begun w' → Brought w w' (.stamped t firedAt)
  | runJob {job firedAt} : job ∈ w.jobs → (job.task, firedAt) ∈ w.begun w' →
      Brought w w' (.stamped job.task firedAt)
  | launched {t firedAt} : .stamped t firedAt ∈ w.firings →
      Brought w w' (.working (w.toService.launch t firedAt))
  | worked {f} (unit : Nat) : .working f ∈ w.firings →
      Brought w w' (.working (f.step w.fleet unit).2)
  | ended {x} : x.shot? = none → Brought w w' x

theorem Step.brought {w w' : Busy φ σ} {c? : Option Change} (hs : w.Step c? w') :
    ∀ x ∈ w'.firings, Brought w w' x := by
  have hkept : ∀ x ∈ w.firings, Brought w w' x := fun _ => .kept
  cases hs with
  | run m id firedAt hx hstamp =>
    refine List.forall_mem_append.2 ⟨hkept, List.forall_mem_singleton.2 ?_⟩
    exact .run hstamp (mem_begun_of_append rfl)
  | runJob m firedAt hx hjobs howner hstamp =>
    refine List.forall_mem_append.2 ⟨hkept, List.forall_mem_singleton.2 ?_⟩
    exact .runJob (hjobs ▸ List.mem_append_cons_self) (mem_begun_of_append rfl)
  | launch hf =>
    exact forall_replaced hf hkept fun _ => .launched (hf ▸ List.mem_append_cons_self)
  | work unit hf =>
    exact forall_replaced hf hkept fun _ => .worked unit (hf ▸ List.mem_append_cons_self)
  | record finishedAt hf hr => exact forall_replaced hf hkept fun _ => .ended rfl
  | find hx hf ht => exact fun x hx => .kept (hf ▸ mem_of_mem_dropped hx)
  | miss hx hf ht => exact forall_replaced hf hkept fun _ => .ended rfl
  | forget hf => exact fun x hx => .kept (hf ▸ mem_of_mem_dropped hx)
  | _ => exact hkept

theorem Step.recalled {w w' : Busy φ σ} {c? : Option Change} (hs : w.Step c? w') {id : String}
    {r : Record} (hr : r ∈ w'.history.forTask id) : r ∈ w.history.forTask id ∨
      ∃ f finishedAt, .working f ∈ w.firings ∧ f.record? finishedAt = some r := by
  have hforget : ∀ {k}, r ∈ (w.history.forget k).forTask id → r ∈ w.history.forTask id := by
    intro k hr
    rw [History.forTask_forget] at hr
    split at hr
    · cases hr
    · exact hr
  cases hs with
  | @proceed x s x? c? m hx hact =>
    have hhistory := x.act_history w.toService m
    rw [hact] at hhistory
    change r ∈ s.history.forTask id at hr
    rw [hhistory] at hr
    cases x with
    | forget k => exact .inl (hforget hr)
    | _ => exact .inl hr
  | run m id firedAt hx hstamp =>
    obtain ⟨t, -, hs⟩ := Option.map_eq_some_iff.1 hstamp
    cases hs
    exact .inl hr
  | runJob m firedAt hx hjobs howner hstamp =>
    obtain ⟨t, -, hs⟩ := Option.map_eq_some_iff.1 hstamp
    cases hs
    exact .inl hr
  | @record fs f fs' r' finishedAt hf hrecord =>
    change r ∈ (w.history.record r').forTask id at hr
    rw [History.forTask_record] at hr
    split at hr
    · rcases List.mem_cons.1 (List.mem_of_mem_take hr) with rfl | hr
      · exact .inr ⟨f, finishedAt, hf ▸ List.mem_append_cons_self, hrecord⟩
      · exact .inl hr
    · exact .inl hr
  | forget hf => exact .inl (hforget hr)
  | _ => exact .inl hr

end Busy

/-- The definition that a call brings was found valid before the call waited for the lock, by a
service with these options and clusters of the kind that there are all the time. -/
def Request.Checked (p : φ → Prop) (options : Options) : Request → Prop
  | create d _ _ => ∃ (s : Service φ) (m : Moment), s.options = options ∧ p s.fleet ∧
      s.validate m d = .ok ()
  | update _ d => ∃ (s : Service φ) (m : Moment), s.options = options ∧ p s.fleet ∧
      s.validate m d = .ok ()
  | toggle _ => True
  | delete _ => True

namespace Succession

/-- The files that are left when a process ends: a save may be cut off. -/
inductive Leaves (h : Succession φ σ) : Files → Prop where
  | whole : Leaves h h.site.files
  | torn {w w₁ : Busy φ σ} {files : Files} : w ∈ h.services → (w.on h.site).Saving w₁ →
    Store.Attempted w.options.process w.options.path w₁.tasks.values h.site.files files .cut →
    Leaves h files

/-- What can happen next, with the firings that begin by it. Services have the same policy and the
same file. Clusters are changed by the work of firings, and from outside as far as that is
allowed. -/
inductive Step (o : Options) (p : φ → Prop) (outside : φ → φ → Prop) :
    Succession φ σ → List (Task × Instant) → Succession φ σ → Prop

  | enter {h : Succession φ σ} {ws w ws' x} (m : Moment) (r : Request) :
      h.services = ws ++ w :: ws' → w.holder? = none → r.enter w.tasks m = some x →
      r.Checked p w.options →
      Step o p outside h [] { h with services := ws ++ { w with holder? := some x } :: ws' }

  | act {h : Succession φ σ} {ws w ws' c? w'} : h.services = ws ++ w :: ws' →
      (w.on h.site).Step c? w' → (w.holder? = none → w'.holder? = none) →
      (w'.fleet = h.site.fleet ∨ ∃ f unit, Stage.working f ∈ w.firings ∧
        w'.fleet = (f.step h.site.fleet unit).1) →
      Step o p outside h (w.begun w') ⟨w'.toSite, ws ++ w' :: ws'⟩

  /-- A job that one service was handed goes to another, whose it may be. -/
  | deliver {h : Succession φ σ} {v ws w ws' job} : v ∈ h.services → job ∈ v.jobs →
      h.services = ws ++ w :: ws' →
      Step o p outside h []
        { h with services := ws ++ { w with jobs := w.jobs ++ [job] } :: ws' }

  | change (h : Succession φ σ) {fleet : φ} : outside h.site.fleet fleet →
      Step o p outside h [] { h with site := { h.site with fleet } }

  | begin (h : Succession φ σ) (owner : Nat) (options : Options) (m : Moment) :
      options.policy = o.policy → options.path = o.path →
      Step o p outside h [] ⟨(Busy.start (σ := σ) h.site owner options m).toSite,
        h.services ++ [Busy.start h.site owner options m]⟩

  | reboot {h : Succession φ σ} {engine : Engine Job} {files : Files} : engine.size = 0 →
      h.Leaves files → Step o p outside h [] ⟨⟨engine, files, h.site.fleet⟩, []⟩

/-- What can have happened at a site, with the firings that began, and with clusters that are of a
kind all the time. -/
inductive Run (o : Options) (p : φ → Prop) (outside : φ → φ → Prop) (site : Site φ) :
    List (Task × Instant) → Succession φ σ → Prop

  | rest : site.engine.size = 0 → p site.fleet → Run o p outside site [] ⟨site, []⟩

  | step {log h shots h'} : Run o p outside site log h → Step o p outside h shots h' →
      p h'.site.fleet → Run o p outside site (log ++ shots) h'

variable {o : Options} {p : φ → Prop} {outside : φ → φ → Prop} {site : Site φ}
  {h : Succession φ σ} {log : List (Task × Instant)}

theorem Run.holds (r : Run o p outside site log h) : p h.site.fleet := by
  cases r with
  | rest hengine hp => exact hp
  | step r hs hp => exact hp

theorem Run.options (r : Run o p outside site log h) :
    ∀ w ∈ h.services, w.options.policy = o.policy ∧ w.options.path = o.path := by
  induction r with
  | rest => exact fun w hw => absurd hw List.not_mem_nil
  | @step log h shots h' r hs hp ih =>
    cases hs with
    | enter m q hws hx henter hq => exact forall_replaced hws ih id
    | act hws hs hlock hfleet =>
      refine forall_replaced hws ih fun hw => ?_
      rw [hs.options_eq]
      exact hw
    | deliver hv hjob hws => exact forall_replaced hws ih id
    | change hfleet => exact ih
    | begin owner options m hpolicy hpath =>
      refine List.forall_mem_append.2 ⟨ih, List.forall_mem_singleton.2 ?_⟩
      have hoptions := (start_frame h.site owner options m).1
      exact ⟨(congrArg Options.policy hoptions).trans hpolicy,
        (congrArg Options.path hoptions).trans hpath⟩
    | reboot => exact fun w hw => absurd hw List.not_mem_nil

/-- What the beginning of a service gives, what its steps keep and what depends on the firings, the
history and the options only holds of all services. -/
theorem Run.each {q : Busy φ σ → Prop}
    (hcongr : ∀ {w w' : Busy φ σ}, w'.firings = w.firings → w'.history = w.history →
      w'.options = w.options → q w → q w')
    (hstart : ∀ site owner options m, q (Busy.start site owner options m))
    (hact : ∀ {log h}, Run o p outside site log h → ∀ w ∈ h.services, ∀ {c? w'}, q (w.on h.site) →
      (w.on h.site).Step c? w' → q w')
    (r : Run o p outside site log h) : ∀ w ∈ h.services, q w := by
  induction r with
  | rest => exact fun w hw => absurd hw List.not_mem_nil
  | @step log h shots h' r hs hfleet ih =>
    cases hs with
    | enter m x hws hx henter hx' => exact forall_replaced hws ih (hcongr rfl rfl rfl)
    | @act ws w ws' c? w' hws hs hlock hfleet' =>
      have hmem : w ∈ h.services := hws ▸ List.mem_append_cons_self
      exact forall_replaced hws ih
        fun hw => hact r w hmem (@hcongr w (w.on h.site) rfl rfl rfl hw) hs
    | deliver hv hjob hws => exact forall_replaced hws ih (hcongr rfl rfl rfl)
    | change hfleet => exact ih
    | begin owner options m hpolicy hpath =>
      exact List.forall_mem_append.2 ⟨ih, List.forall_mem_singleton.2 (hstart ..)⟩
    | reboot => exact fun w hw => absurd hw List.not_mem_nil

/-! ### A service alone -/

theorem Step.alone {w w' : Busy φ σ} {c? : Option Change} (hs : (w.on site).Step c? w')
    (hlock : w.holder? = none → w'.holder? = none)
    (hfleet : w'.fleet = site.fleet ∨ ∃ f unit, Stage.working f ∈ w.firings ∧
      w'.fleet = (f.step site.fleet unit).1) :
    Step o p outside ⟨site, [w]⟩ (w.begun w') ⟨w'.toSite, [w']⟩ := by
  have hws : (⟨site, [w]⟩ : Succession φ σ).services = [] ++ w :: [] := rfl
  exact .act hws hs hlock hfleet

section

variable {s s' : Service φ} {jobs : List Job} {firings : List (Stage σ)}

theorem Run.start (hengine : site.engine.size = 0) (hp : p site.fleet) (owner : Nat)
    (options : Options) (m : Moment) (hpolicy : options.policy = o.policy)
    (hpath : options.path = o.path) :
    Run o p outside site [] (σ := σ) ⟨(Service.start site owner options m).toSite,
      [⟨Service.start site owner options m, none, [], []⟩]⟩ := by
  have hfleet : (Service.start site owner options m).fleet = site.fleet :=
    (start_frame site owner options m).2.2.1
  have r : Run o p outside site [] (σ := σ) ⟨site, []⟩ := .rest hengine hp
  exact r.step (.begin _ owner options m hpolicy hpath) (hfleet ▸ hp)

theorem Run.proceed {x : Holder} {x? : Option Holder} {c? : Option Change}
    (r : Run o p outside site log ⟨s.toSite, [⟨s, some x, jobs, firings⟩]⟩) (m : Moment)
    (h : x.act s m = (s', x?, c?)) :
    Run o p outside site log ⟨s'.toSite, [⟨s', x?, jobs, firings⟩]⟩ := by
  obtain ⟨handles, engine, hact⟩ := x.act_eq s m
  rw [h] at hact
  have hfleet : s'.fleet = s.fleet := by
    refine (congrArg (fun s => s.fleet) hact).trans ?_
    cases x <;> rfl
  have hs : (Busy.on ⟨s, some x, jobs, firings⟩ s.toSite).Step c? ⟨s', x?, jobs, firings⟩ :=
    .proceed m rfl h
  have r' := r.step (.alone hs nofun (.inl hfleet)) (hfleet ▸ r.holds)
  have hbegun : Busy.begun (⟨s, some x, jobs, firings⟩ : Busy φ σ) ⟨s', x?, jobs, firings⟩ = [] :=
    Busy.begun_of_length_le (Nat.le_refl _)
  rw [hbegun, List.append_nil] at r'
  exact r'

theorem Run.create (r : Run o p outside site log ⟨s.toSite, [⟨s, none, jobs, firings⟩]⟩)
    (m : Moment) (d : Definition) (createdBy : String) :
    Run o p outside site log
      ⟨(s.create m d createdBy).1.toSite, [⟨(s.create m d createdBy).1, none, jobs, firings⟩]⟩ := by
  rcases s.create_cases m d createdBy with ⟨e, -, h, -⟩ | ⟨hvalid, hnew, hr⟩
  · rw [h]
    exact r
  · have henter : (Request.create d createdBy m.now).enter s.tasks m =
        some (.withdraw (.created d createdBy m.now) (.ofDefinition d createdBy m.now) none) := by
      simp [Request.enter, Table.contains, hnew]
    have hws : (⟨s.toSite, [⟨s, none, jobs, firings⟩]⟩ : Succession φ σ).services =
      [] ++ ⟨s, none, jobs, firings⟩ :: [] := rfl
    have r₀ := r.step (.enter m _ hws rfl henter ⟨s, m, rfl, r.holds, hvalid⟩) r.holds
    rw [List.append_nil] at r₀
    have r₁ := r₀.proceed m rfl
    rcases hr with ⟨s', e, hr, h, -⟩ | ⟨s', k, hr, h, -⟩
    · rw [← register_unregister] at hr
      have hact : (Holder.install (.created d createdBy m.now) (.ofDefinition d createdBy m.now)
          none).act (s.unregister (Task.ofDefinition d createdBy m.now).id) m =
            (s', none, none) := by
        simp [Holder.act, hr]
      rw [h]
      exact r₁.proceed m hact
    · rw [← register_unregister] at hr
      have hact : (Holder.install (.created d createdBy m.now) (.ofDefinition d createdBy m.now)
          none).act (s.unregister (Task.ofDefinition d createdBy m.now).id) m =
            (s', some (.commit (.created d createdBy m.now) (.ofDefinition d createdBy m.now)),
              none) := by
        simp [Holder.act, hr]
      rw [h]
      exact (r₁.proceed m hact).proceed m rfl

theorem Run.run (r : Run o p outside site log ⟨s.toSite, [⟨s, none, jobs, firings⟩]⟩)
    {m : Moment} {id : String} {firedAt : Instant} {t : Task}
    (h : s.stamp m id firedAt = some (s', t)) :
    Run o p outside site (log ++ [(t, firedAt)])
      ⟨s'.toSite, [⟨s', none, jobs, firings ++ [.stamped t firedAt]⟩]⟩ := by
  have hfleet : s'.fleet = s.fleet := by
    obtain ⟨t', -, hs⟩ := Option.map_eq_some_iff.1 h
    cases hs
    rfl
  have hs : (Busy.on ⟨s, none, jobs, firings⟩ s.toSite).Step (some (.stamped id firedAt false))
      ⟨s', none, jobs, firings ++ [.stamped t firedAt]⟩ :=
    .run m id firedAt rfl h
  have r' := r.step (.alone hs (fun _ => rfl) (.inl hfleet)) (hfleet ▸ r.holds)
  have hbegun : Busy.begun (⟨s, none, jobs, firings⟩ : Busy φ σ)
      ⟨s', none, jobs, firings ++ [.stamped t firedAt]⟩ = [(t, firedAt)] :=
    Busy.begun_of_append (x := .stamped t firedAt) rfl
  rw [hbegun] at r'
  exact r'

theorem Run.launch {x? : Option Holder} {l l' : List (Stage σ)} {t : Task} {firedAt : Instant}
    (r : Run o p outside site log ⟨s.toSite, [⟨s, x?, jobs, l ++ .stamped t firedAt :: l'⟩]⟩) :
    Run o p outside site log
      ⟨s.toSite, [⟨s, x?, jobs, l ++ .working (s.launch t firedAt) :: l'⟩]⟩ := by
  have hs : (Busy.on ⟨s, x?, jobs, l ++ .stamped t firedAt :: l'⟩ s.toSite).Step none
      ⟨s, x?, jobs, l ++ .working (s.launch t firedAt) :: l'⟩ := .launch rfl
  have r' := r.step (.alone hs id (.inl rfl)) r.holds
  have hbegun : Busy.begun (⟨s, x?, jobs, l ++ .stamped t firedAt :: l'⟩ : Busy φ σ)
      ⟨s, x?, jobs, l ++ .working (s.launch t firedAt) :: l'⟩ = [] :=
    Busy.begun_of_length_le (by simp)
  rw [hbegun, List.append_nil] at r'
  exact r'

theorem Run.work {x? : Option Holder} {l l' : List (Stage σ)} {f f' : Flight σ} {units : List Nat}
    {fleet : φ} (r : Run o p outside site log ⟨s.toSite, [⟨s, x?, jobs, l ++ .working f :: l'⟩]⟩)
    (hp : ∀ {fleet} (f : Flight σ) (unit : Nat), p fleet → p (f.step fleet unit).1)
    (h : workThrough s.fleet f (units.map .step) = (fleet, f')) :
    Run o p outside site log
      ⟨Service.toSite { s with fleet },
        [⟨{ s with fleet }, x?, jobs, l ++ .working f' :: l'⟩]⟩ := by
  induction units generalizing s f with
  | nil =>
    cases h
    exact r
  | cons unit units ih =>
    refine ih (s := { s with fleet := (f.step s.fleet unit).1 }) ?_ h
    have hs : (Busy.on ⟨s, x?, jobs, l ++ .working f :: l'⟩ s.toSite).Step none
        ⟨{ s with fleet := (f.step s.fleet unit).1 }, x?, jobs,
          l ++ .working (f.step s.fleet unit).2 :: l'⟩ := .work unit rfl
    have r' := r.step (.alone hs id (.inr ⟨f, unit, List.mem_append_cons_self, rfl⟩))
      (hp f unit r.holds)
    have hbegun : Busy.begun (⟨s, x?, jobs, l ++ .working f :: l'⟩ : Busy φ σ)
        ⟨{ s with fleet := (f.step s.fleet unit).1 }, x?, jobs,
          l ++ .working (f.step s.fleet unit).2 :: l'⟩ = [] :=
      Busy.begun_of_length_le (by simp)
    rw [hbegun, List.append_nil] at r'
    exact r'

theorem Run.record {x? : Option Holder} {l l' : List (Stage σ)} {f : Flight σ} {record : Record}
    (r : Run o p outside site log ⟨s.toSite, [⟨s, x?, jobs, l ++ .working f :: l'⟩]⟩)
    {finishedAt : Instant} (h : f.record? finishedAt = some record) :
    Run o p outside site log
      ⟨s.toSite, [⟨s.conclude record, x?, jobs, l ++ .recorded record.taskId :: l'⟩]⟩ := by
  have hs : (Busy.on ⟨s, x?, jobs, l ++ .working f :: l'⟩ s.toSite).Step none
      ⟨s.conclude record, x?, jobs, l ++ .recorded record.taskId :: l'⟩ := .record finishedAt rfl h
  have r' := r.step (.alone hs id (.inl rfl)) r.holds
  have hbegun : Busy.begun (⟨s, x?, jobs, l ++ .working f :: l'⟩ : Busy φ σ)
      ⟨s.conclude record, x?, jobs, l ++ .recorded record.taskId :: l'⟩ = [] :=
    Busy.begun_of_length_le (by simp)
  rw [hbegun, List.append_nil] at r'
  exact r'

end

end Succession

end Service

end Snapshots
