import Snapshots.Proofs.Service.Handout
import Snapshots.Proofs.Service.Succession
import Snapshots.Proofs.Store.RoundTrip

/-! # Plain tasks

A task that names no clusters is plain, and is fired on the cluster that is current. Where only one
cluster can be reached and tasks for others are rejected, plain tasks stay plain on every way that
leads to a firing: by calls, through the file, and in the jobs of the timer. Main statement:
`Run.never_aborted`.
-/

namespace Snapshots

open Files Firing Timer Time

namespace Store

variable {fs fs' fs'' : Files} {p : Path} {c : Content} {there : Place} {process : Nat}
  {ts : List Task} {o : Outcome}

/-! ### Files of plain tasks -/

/-- Files were changed at most as saves that fail change them, of whatever process. -/
def Disturbs (p : Path) (fs fs' : Files) : Prop :=
  Spares (fun q => ∀ process, fs'.place (sibling process p) ≠ .ok q) fs fs'

theorem Disturbs.refl (p : Path) (fs : Files) : Disturbs p fs fs :=
  Spares.refl fs

theorem Disturbs.trans (h : Disturbs p fs fs') (h' : Disturbs p fs' fs'') : Disturbs p fs fs'' :=
  (h.mono fun hq process hq' => hq process (h'.place_eq_ok hq')).trans h'

theorem disturbs_of_sparesBut (h : SparesBut (sibling process p) fs fs') : Disturbs p fs fs' :=
  h.mono fun hq => hq process

theorem Disturbs.read_iff (h : Disturbs p fs fs') (hp : fs.place p = .ok there) :
    fs'.read p = .ok c ↔ fs.read p = .ok c :=
  Spares.read_iff h hp fun _ hs => sibling_place_ne (h.place_eq_ok hp) hs rfl

theorem Disturbs.read_of_read (h : Disturbs p fs fs') (hfs : fs.Closed)
    (hp : (∃ there, fs.place p = .ok there) ∨ ".." ∉ p.parts) (hread : fs'.read p = .ok c) :
    fs.read p = .ok c := by
  rcases hp with ⟨there, hp⟩ | hup
  · exact (h.read_iff hp).1 hread
  · obtain ⟨there, hp', he, hdir⟩ := read_eq_ok_iff.1 hread
    have he := (h.file_iff fun _ hs => sibling_place_ne hp' hs rfl).1 he
    obtain ⟨hparts, hw⟩ := place_eq_ok_iff.1 hp'
    rw [base, h.home_eq] at hw
    exact read_eq_ok_iff.2
      ⟨there, place_eq_ok_iff.2 ⟨hparts, hfs.walk_of_entry hup hw he⟩, he, hdir⟩

theorem mem_load_iff {t : Task} : t ∈ load fs p ↔ ∃ c, fs.read p = .ok c ∧ t ∈ parse c := by
  unfold load
  cases fs.read p <;> simp

/-- No task in the file names clusters, also if it takes a save that fails to make the path lead
to the file. -/
def PlainFile (fs : Files) (p : Path) : Prop :=
  ∀ fs', Disturbs p fs fs' → ∀ t ∈ load fs' p, t.targets = []

theorem plainFile_iff (hfs : fs.Closed)
    (hp : (∃ there, fs.place p = .ok there) ∨ ".." ∉ p.parts) :
    PlainFile fs p ↔ ∀ t ∈ load fs p, t.targets = [] := by
  constructor
  · intro h
    exact h fs (.refl p fs)
  · intro h fs' hd t ht
    obtain ⟨c, hread, ht⟩ := mem_load_iff.1 ht
    exact h t (mem_load_iff.2 ⟨c, hd.read_of_read hfs hp hread, ht⟩)

theorem plainFile_of_read (h : fs.read p = .ok (.text (render ts)))
    (hts : ∀ t ∈ ts, t.targets = []) : PlainFile fs p := by
  intro fs' hd t ht
  obtain ⟨there, hp, -⟩ := read_eq_ok_iff.1 h
  obtain ⟨c, hread, ht⟩ := mem_load_iff.1 ht
  cases h.symm.trans ((hd.read_iff hp).1 hread)
  rw [parse_render] at ht
  obtain ⟨t', ht', rfl⟩ := List.mem_map.1 ((Task.sorted_perm _).mem_iff.1 ht)
  exact hts t' ht'

theorem PlainFile.attempted (h : PlainFile fs p) (ha : Attempted process p ts fs fs' o)
    (hts : ∀ t ∈ ts, t.targets = []) : PlainFile fs' p := by
  rcases ha.sparesBut_or_read with hspares | ⟨-, hread⟩
  · intro fs'' hd
    exact h fs'' ((disturbs_of_sparesBut hspares).trans hd)
  · exact plainFile_of_read hread hts

end Store

namespace Firing

variable {φ σ : Type} [Fleet φ σ] {policy : Policy} {fleet : φ} {t : Task} {firedAt : Instant}

/-! ### Firings of plain tasks -/

theorem units_launch_of_plain (ht : t.targets = []) :
    (Flight.launch policy fleet t firedAt : Flight σ).units =
      [(Fleet.current fleet, .waiting)] := by
  simp [Flight.launch, targets?, ht]

theorem units_launch_ne_nil (h : t.targets = [] ∨ policy = .fallback) :
    (Flight.launch policy fleet t firedAt : Flight σ).units ≠ [] := by
  by_cases ht : t.targets = []
  · rw [units_launch_of_plain ht]
    exact List.cons_ne_nil _ _
  · obtain ⟨a, as, hts⟩ := List.exists_cons_of_ne_nil ht
    rw [h.resolve_left ht]
    unfold Flight.launch targets?
    rw [if_neg ht]
    split
    · simp [hts, firsts]
    · simp

theorem length_units_step (fleet : φ) (f : Flight σ) (i : Nat) :
    (f.step fleet i).2.units.length = f.units.length := by
  unfold Flight.step
  split <;> simp

theorem status_of_record {f : Flight σ} {finishedAt : Instant} {r : Record} (hf : f.units ≠ [])
    (h : f.record? finishedAt = some r) : r.status ≠ .aborted := by
  obtain ⟨outcomes, ho, rfl⟩ := Option.map_eq_some_iff.1 h
  have hne : outcomes ≠ [] := by
    rintro rfl
    obtain ⟨u, us, hu⟩ := List.exists_cons_of_ne_nil hf
    rw [Flight.outcomes?, hu, List.mapM_cons] at ho
    simp [Option.bind_eq_some_iff] at ho
  simp only [Record.ofOutcomes, Status.classify, if_neg hne]
  split
  · nofun
  · split <;> nofun

end Firing

namespace Service

variable {φ σ : Type}

def Holder.drafts : Holder → List Task
  | withdraw _ t previous? => t :: previous?.toList
  | install _ t previous? => t :: previous?.toList
  | reinstate previous => [previous]
  | commit _ t => [t]
  | remove _ => []
  | strike _ => []
  | forget _ => []

theorem lookup_register {s s' : Service φ} {m : Moment} {t : Task} {r : Answer}
    (hr : s.register m t = (s', r)) {k : Handle} {entry : Cron.Schedule × Job}
    (hk : s'.engine.lookup k = some entry) :
    s.engine.lookup k = some entry ∨ entry.2.task = t := by
  obtain ⟨hr, -⟩ := register_eq hr
  cases r with
  | error e =>
    rw [(Registry.register_error hr).2.1] at hk
    split at hk
    · cases hk
    · exact .inl hk
  | ok k' =>
    obtain ⟨schedule, -, -, -, -, hlookup⟩ := Registry.register_ok hr
    rw [hlookup] at hk
    split at hk
    · cases hk
      exact .inr rfl
    · split at hk
      · cases hk
      · exact .inl hk

end Service

/-- No job of the timer and no task in the file names clusters. -/
structure Site.Plain {φ : Type} (path : Path) (site : Site φ) : Prop where
  engine : ∀ {h entry}, site.engine.lookup h = some entry → entry.2.task.targets = []
  files : Store.PlainFile site.files path

namespace Service.Busy

variable {φ σ : Type} {w w' : Busy φ σ}

/-- No task of the service names clusters, nor does one that a call is about to put, that a job
stands for or that is being fired. -/
structure Plain (w : Busy φ σ) : Prop where
  tasks : ∀ {k t}, w.tasks.get? k = some t → t.targets = []
  drafts : ∀ {x}, w.holder? = some x → ∀ t ∈ x.drafts, t.targets = []
  jobs : ∀ job ∈ w.jobs, job.task.targets = []
  stamped : ∀ {t firedAt}, .stamped t firedAt ∈ w.firings → t.targets = []

variable {c? : Option Change}

theorem lookup_proceed {x : Holder} {m : Moment} {s : Service φ} {x? : Option Holder}
    (h : x.act w.toService m = (s, x?, c?)) {k : Handle} {entry : Cron.Schedule × Job}
    (hk : s.engine.lookup k = some entry) :
    w.engine.lookup k = some entry ∨ entry.2.task ∈ x.drafts := by
  have hunregister : ∀ {s : Service φ} {id : String},
      (s.unregister id).engine.lookup k = some entry → s.engine.lookup k = some entry := by
    intro s id hk
    change (s.handles.unregister s.engine id).2.lookup k = some entry at hk
    rw [Registry.lookup_unregister] at hk
    split at hk
    · cases hk
    · exact hk
  have hregister : ∀ {s₁ : Service φ} {t : Task} {r : Answer} {ts : List Task},
      w.toService.register m t = (s₁, r) → s₁.engine.lookup k = some entry → t ∈ ts →
      w.engine.lookup k = some entry ∨ entry.2.task ∈ ts := by
    intro s₁ t r ts hr hk ht
    rcases lookup_register hr hk with hk | rfl
    · exact .inl hk
    · exact .inr ht
  cases x with
  | withdraw c t previous? =>
    cases h
    exact .inl (hunregister hk)
  | install c t previous? =>
    obtain ⟨-, ⟨k', hr, -⟩ | ⟨e, hr, -⟩⟩ := Holder.act_install h
    · exact hregister hr hk List.mem_cons_self
    · exact hregister hr hk List.mem_cons_self
  | reinstate previous =>
    cases h
    simp only [Service.reinstate] at hk
    split at hk
    · exact hregister rfl hk (List.mem_singleton_self _)
    · exact .inl hk
  | strike id =>
    cases h
    exact .inl (hunregister hk)
  | _ =>
    cases h
    exact .inl hk

variable [Fleet φ σ]

theorem Plain.engine_step (hw : w.Plain)
    (hengine : ∀ {k entry}, w.engine.lookup k = some entry → entry.2.task.targets = [])
    (hs : Step w c? w') {k : Handle} {entry : Cron.Schedule × Job}
    (hk : w'.engine.lookup k = some entry) : entry.2.task.targets = [] := by
  cases hs with
  | proceed m hx hact =>
    rcases lookup_proceed hact hk with hk | hmem
    · exact hengine hk
    · exact hw.drafts hx _ hmem
  | run m id firedAt hx hstamp =>
    obtain ⟨t, -, hs⟩ := Option.map_eq_some_iff.1 hstamp
    cases hs
    exact hengine hk
  | runJob m firedAt hx hjobs howner hstamp =>
    obtain ⟨t, -, hs⟩ := Option.map_eq_some_iff.1 hstamp
    cases hs
    exact hengine hk
  | turn t =>
    change (w.engine.turn _).lookup k = some entry at hk
    rw [Engine.lookup_turn] at hk
    exact hengine hk
  | @collect l hl =>
    have hturn := (Engine.looping l).lookup_turn .collect k
    rw [hl] at hengine
    exact hengine (hturn.symm.trans hk)
  | _ => exact hengine hk

omit [Fleet φ σ] in
theorem Plain.proceed (hw : w.Plain) {x : Holder} {m : Moment} {s : Service φ}
    {x? : Option Holder} (hx : w.holder? = some x) (h : x.act w.toService m = (s, x?, c?)) :
    Plain { w with toService := s, holder? := x? } := by
  have hx := hw.drafts hx
  have htasks := x.act_tasks w.toService m
  rw [h] at htasks
  refine ⟨fun {k t} ht => ?_, fun {x'} hx' => ?_, hw.jobs, hw.stamped⟩
  · change s.tasks.get? k = some t at ht
    rw [htasks] at ht
    cases x with
    | commit c t' =>
      rw [Table.get?_insert] at ht
      split at ht
      · cases ht
        exact hx _ (List.mem_singleton_self _)
      · exact hw.tasks ht
    | remove id =>
      rw [Table.get?_erase] at ht
      split at ht
      · cases ht
      · exact hw.tasks ht
    | _ => exact hw.tasks ht
  · change x? = some x' at hx'
    subst hx'
    cases x with
    | withdraw c t previous? =>
      have hx' := (Prod.ext_iff.1 (Prod.ext_iff.1 h).2).1
      simp only [Holder.act, Option.some.injEq] at hx'
      split at hx'
      · exact hx' ▸ hx
      · rw [← hx']
        exact fun t' ht' => hx t' (List.mem_singleton.1 ht' ▸ List.mem_cons_self)
    | install c t previous? =>
      obtain ⟨-, ⟨k, -, hx'⟩ | ⟨e, -, hx'⟩⟩ := Holder.act_install h
      · cases hx'
        exact fun t' ht' => hx t' (List.mem_singleton.1 ht' ▸ List.mem_cons_self)
      · obtain ⟨previous, rfl, rfl⟩ := Option.map_eq_some_iff.1 hx'.symm
        exact fun t' ht' => hx t' (List.mem_cons_of_mem _ ht')
    | strike id =>
      cases h
      exact fun t ht => absurd ht List.not_mem_nil
    | remove id =>
      cases h
      exact fun t ht => absurd ht List.not_mem_nil
    | _ => cases h

omit [Fleet φ σ] in
theorem Plain.stamp (hw : w.Plain) {m : Moment} {id : String} {firedAt : Instant}
    {s : Service φ} {t : Task} (h : w.toService.stamp m id firedAt = some (s, t)) :
    t.targets = [] ∧ ∀ {k t'}, s.tasks.get? k = some t' → t'.targets = [] := by
  obtain ⟨previous, hp, hs⟩ := Option.map_eq_some_iff.1 h
  cases hs
  have hprevious := hw.tasks hp
  refine ⟨hprevious, fun {k t'} ht' => ?_⟩
  change (w.tasks.insert previous.id _).get? k = some t' at ht'
  rw [Table.get?_insert] at ht'
  split at ht'
  · cases ht'
    exact hprevious
  · exact hw.tasks ht'

theorem Plain.step (hw : w.Plain)
    (hengine : ∀ {k entry}, w.engine.lookup k = some entry → entry.2.task.targets = [])
    (hs : Step w c? w') (hlock : w.holder? = none → w'.holder? = none) : w'.Plain := by
  have hstamped : ∀ {t firedAt}, .stamped t firedAt ∈ w'.firings → t.targets = [] := by
    intro t firedAt hmem
    cases hs.brought _ hmem with
    | kept hold => exact hw.stamped hold
    | run hstamp => exact (hw.stamp hstamp).1
    | runJob hjob => exact hw.jobs _ hjob
    | ended hended => cases hended
  cases hs with
  | enter m r hx henter => cases hlock hx
  | proceed m hx hact => exact hw.proceed hx hact
  | run m id firedAt hx hstamp => exact ⟨(hw.stamp hstamp).2, hw.drafts, hw.jobs, hstamped⟩
  | runJob m firedAt hx hjobs howner hstamp =>
    refine ⟨(hw.stamp hstamp).2, hw.drafts, fun job' hmem => hw.jobs job' ?_, hstamped⟩
    exact hjobs ▸ mem_of_mem_dropped hmem
  | skipJob hx hjobs hgone =>
    refine ⟨hw.tasks, hw.drafts, fun job' hmem => hw.jobs job' ?_, hstamped⟩
    exact hjobs ▸ mem_of_mem_dropped hmem
  | collect hl =>
    refine ⟨hw.tasks, hw.drafts, List.forall_mem_append.2 ⟨hw.jobs, fun job hmem => ?_⟩, hstamped⟩
    obtain ⟨k, schedule, hk⟩ := lookup_of_mem_collect hmem
    exact hengine (hl ▸ hk)
  | @fire timer k job hl hjob =>
    refine ⟨hw.tasks, hw.drafts, List.forall_mem_append.2 ⟨hw.jobs, ?_⟩, hstamped⟩
    obtain ⟨entry, hentry, hjob⟩ := Option.map_eq_some_iff.1 hjob
    refine List.forall_mem_singleton.2 (hjob ▸ hengine (k := k) ?_)
    exact hl ▸ hentry
  | _ => exact ⟨hw.tasks, hw.drafts, hw.jobs, hstamped⟩

omit [Fleet φ σ] in
theorem Plain.on (hw : w.Plain) (site : Site φ) : (w.on site).Plain :=
  ⟨hw.tasks, hw.drafts, hw.jobs, hw.stamped⟩

/-- Every firing reaches some cluster, and every one that is remembered has reached some. -/
structure Reaching (w : Busy φ σ) : Prop where
  units : ∀ {f}, .working f ∈ w.firings → f.units ≠ []
  history : ∀ {id r}, r ∈ w.history.forTask id → r.status ≠ .aborted

theorem Reaching.step (hw : w.Reaching)
    (hlaunch : ∀ {t firedAt}, .stamped t firedAt ∈ w.firings →
      (w.toService.launch t firedAt : Flight σ).units ≠ [])
    (hs : Step w c? w') : w'.Reaching := by
  have hunits : ∀ {f}, .working f ∈ w'.firings → f.units ≠ [] := by
    intro f hmem
    cases hs.brought _ hmem with
    | kept hold => exact hw.units hold
    | launched hold => exact hlaunch hold
    | @worked f unit hold =>
      intro hnil
      have hlength := length_units_step w.fleet f unit
      rw [hnil, List.length_nil, eq_comm, List.length_eq_zero_iff] at hlength
      exact hw.units hold hlength
    | ended hended => cases hended
  refine ⟨hunits, fun {id r} hr => ?_⟩
  rcases hs.recalled hr with hr | ⟨f, finishedAt, hf, hrecord⟩
  · exact hw.history hr
  · exact status_of_record (hw.units hf) hrecord

omit [Fleet φ σ] in
theorem Reaching.congr (hw : w.Reaching) (hfirings : w'.firings = w.firings)
    (hhistory : w'.history = w.history) : w'.Reaching :=
  ⟨fun hf => hw.units (hfirings ▸ hf), fun hr => hw.history (hhistory ▸ hr)⟩

theorem plainFile_step (hs : Step w c? w') (hw' : w'.Plain)
    (hfile : Store.PlainFile w.files w.options.path) :
    w'.options = w.options ∧ Store.PlainFile w'.files w.options.path := by
  rcases hs.saving_or_quiet with ⟨w₁, m, hsaving, rfl⟩ | hq
  · obtain ⟨hoptions, hfiles, -⟩ := hsaving.frame
    refine ⟨hoptions, ?_⟩
    obtain ⟨o, hattempted, -⟩ := Store.attempted_saveWith m.fails w₁.options.process w₁.files
      w₁.options.path w₁.tasks.values
    rw [hoptions, hfiles] at hattempted
    have hts : ∀ t ∈ w₁.tasks.values, t.targets = [] := by
      intro t ht
      obtain ⟨k, hk⟩ := (Table.mem_values_iff ..).1 ht
      exact hw'.tasks hk
    have hsaved : (w₁.persist m).files = (Store.saveWith m.fails w.options.process w.files
        w.options.path w₁.tasks.values).1 := by
      rw [← hoptions, ← hfiles]
      rfl
    rw [hsaved]
    exact hfile.attempted hattempted hts
  · rw [hq.files_eq]
    exact ⟨hq.options_eq, hfile⟩

end Service.Busy

namespace Service

variable {φ σ : Type}

theorem lookup_foldl_restore {m : Moment} {ts : List Task} {s : Service φ} {k : Handle}
    {entry : Cron.Schedule × Job} (hk : (ts.foldl (restore m) s).engine.lookup k = some entry) :
    s.engine.lookup k = some entry ∨ entry.2.task ∈ ts := by
  induction ts generalizing s with
  | nil => exact .inl hk
  | cons t ts ih =>
    rcases ih hk with hk | hmem
    · unfold restore at hk
      split at hk
      · exact .inl hk
      · split at hk
        · rcases lookup_register rfl hk with hk | rfl
          · exact .inl hk
          · exact .inr List.mem_cons_self
        · exact .inl hk
    · exact .inr (List.mem_cons_of_mem _ hmem)

variable [Fleet φ σ] {w : Busy φ σ} {p : φ → Prop} {options : Options}

theorem targets_of_validate {s : Service φ} {m : Moment} {d : Definition}
    (hreject : s.options.policy = .reject) (hroutes : Fleet.routes s.fleet = false)
    (h : s.validate m d = .ok ()) : d.targets = [] := by
  by_contra hne
  exact (validate_eq_ok_iff.1 h).2.2 ⟨hreject, hne, hroutes⟩

theorem Busy.Plain.enter (hw : w.Plain) (hreject : options.policy = .reject)
    (hp : ∀ {fleet}, p fleet → Fleet.routes fleet = false) {m : Moment} {r : Request} {x : Holder}
    (henter : r.enter w.tasks m = some x) (hr : r.Checked p options) :
    Busy.Plain { w with holder? := some x } := by
  refine ⟨hw.tasks, fun {x'} hx' => ?_, hw.jobs, hw.stamped⟩
  cases hx'
  cases r with
  | create d createdBy now =>
    obtain ⟨s, m', hoptions, hs, hvalid⟩ := hr
    have hd := targets_of_validate (hoptions ▸ hreject) (hp hs) hvalid
    simp only [Request.enter] at henter
    split at henter
    · cases henter
    · cases henter
      exact fun t ht => List.mem_singleton.1 ht ▸ hd
  | update id d =>
    obtain ⟨s, m', hoptions, hs, hvalid⟩ := hr
    have hd := targets_of_validate (hoptions ▸ hreject) (hp hs) hvalid
    obtain ⟨previous, hprevious, rfl⟩ := Option.map_eq_some_iff.1 henter
    intro t ht
    rcases List.mem_cons.1 ht with rfl | ht
    · exact hd
    · exact List.mem_singleton.1 ht ▸ hw.tasks hprevious
  | toggle id =>
    obtain ⟨previous, hprevious, rfl⟩ := Option.map_eq_some_iff.1 henter
    intro t ht
    cases List.mem_singleton.1 ht
    exact (hw.tasks hprevious :)
  | delete id =>
    obtain ⟨_, -, rfl⟩ := Option.map_eq_some_iff.1 henter
    exact fun t ht => absurd ht List.not_mem_nil

omit [Fleet φ σ] in
theorem Busy.plain_start {site : Site φ} (owner : Nat) (m : Moment)
    (hsite : site.Plain options.path) :
    (start (σ := σ) site owner options m).Plain ∧
      (start (σ := σ) site owner options m).toSite.Plain options.path := by
  obtain ⟨-, hfiles, -, htasks⟩ := start_frame site owner options m
  have hload := hsite.files site.files (.refl ..)
  refine ⟨⟨fun {k t} ht => ?_, fun {x} hx => ?_, fun job hjob => absurd hjob List.not_mem_nil,
    fun hmem => absurd hmem List.not_mem_nil⟩, ⟨fun {k entry} hk => ?_, ?_⟩⟩
  · change (Service.start site owner options m).tasks.get? k = some t at ht
    rw [htasks] at ht
    exact hload t (List.mem_of_find?_eq_some ht)
  · cases hx
  · rcases lookup_foldl_restore hk with hk | hmem
    · exact hsite.engine hk
    · exact hload _ hmem
  · change Store.PlainFile (Service.start site owner options m).files options.path
    rw [hfiles]
    exact hsite.files

omit [Fleet φ σ] in
theorem Busy.reaching_start (site : Site φ) (owner : Nat) (options : Options) (m : Moment) :
    (start (σ := σ) site owner options m).Reaching := by
  refine ⟨fun hmem => absurd hmem List.not_mem_nil, fun {id r} hr => ?_⟩
  exact absurd (forTask_start site owner options m id) (List.ne_nil_of_mem hr)

namespace Succession

variable {o : Options} {outside : φ → φ → Prop} {site : Site φ} {h : Succession φ σ}
  {log : List (Task × Instant)}

theorem Leaves.plainFile {files : Files} (hleaves : h.Leaves files)
    (hpath : ∀ w ∈ h.services, w.options.path = o.path) (hsite : h.site.Plain o.path)
    (hservices : ∀ w ∈ h.services, w.Plain) : Store.PlainFile files o.path := by
  cases hleaves with
  | whole => exact hsite.files
  | @torn w w₁ files hw hsaving hattempted =>
    obtain ⟨c?, hstep⟩ := hsaving.step
    have hon := (hservices w hw).on h.site
    have hw₁ := hon.step hsite.engine (hstep ⟨default, 0, fun _ => false⟩) hsaving.unlocked
    rw [hpath w hw] at hattempted
    refine hsite.files.attempted hattempted fun t ht => ?_
    obtain ⟨k, hk⟩ := (Table.mem_values_iff ..).1 ht
    exact hw₁.tasks hk

theorem Run.plain (r : Run o p outside site log h) (hreject : o.policy = .reject)
    (hp : ∀ {fleet}, p fleet → Fleet.routes fleet = false)
    (hfile : Store.PlainFile site.files o.path) :
    h.site.Plain o.path ∧ ∀ w ∈ h.services, w.Plain := by
  induction r with
  | rest hengine hfleet =>
    refine ⟨⟨fun {k entry} hk => ?_, hfile⟩, fun w hw => absurd hw List.not_mem_nil⟩
    rw [Engine.lookup_eq_none_of_size_eq_zero hengine] at hk
    cases hk
  | @step log h shots h' r hs hfleet ih =>
    obtain ⟨hsite, hservices⟩ := ih
    have hoptions := r.options
    cases hs with
    | enter m q hws hx henter hq =>
      refine ⟨hsite, forall_replaced hws hservices fun hw => ?_⟩
      exact hw.enter ((hoptions _ (hws ▸ List.mem_append_cons_self)).1.trans hreject) hp henter hq
    | @act ws w ws' c? w' hws hs hlock hfleet' =>
      have hmem : w ∈ h.services := hws ▸ List.mem_append_cons_self
      have hpath := (hoptions w hmem).2
      have hw := (hservices w hmem).on h.site
      have hw' := hw.step hsite.engine hs hlock
      have hfile' := (Busy.plainFile_step hs hw' (hpath ▸ hsite.files)).2
      refine ⟨⟨hw.engine_step hsite.engine hs, hpath ▸ hfile'⟩, ?_⟩
      exact forall_replaced hws hservices fun _ => hw'
    | @deliver v ws w ws' job hv hjob hws =>
      refine ⟨hsite, forall_replaced hws hservices fun hw => ?_⟩
      refine ⟨hw.tasks, hw.drafts, fun job' hmem => ?_, hw.stamped⟩
      rcases List.mem_append.1 hmem with hmem | hmem
      · exact hw.jobs job' hmem
      · rw [List.mem_singleton.1 hmem]
        exact (hservices v hv).jobs job hjob
    | change hfleet => exact ⟨⟨hsite.engine, hsite.files⟩, hservices⟩
    | begin owner options m hpolicy hpath =>
      obtain ⟨hw, hsite'⟩ := Busy.plain_start (σ := σ) owner m (hpath ▸ hsite)
      refine ⟨hpath ▸ hsite', List.forall_mem_append.2 ⟨hservices, ?_⟩⟩
      exact List.forall_mem_singleton.2 hw
    | reboot hengine hleaves =>
      refine ⟨⟨fun {k entry} hk => ?_, ?_⟩, fun w hw => absurd hw List.not_mem_nil⟩
      · rw [Engine.lookup_eq_none_of_size_eq_zero hengine] at hk
        cases hk
      · exact hleaves.plainFile (fun w hw => (hoptions w hw).2) hsite hservices

/-- Every firing reaches a cluster, if tasks for other clusters come in nowhere or fall back on the
current one. -/
theorem Run.reaching (r : Run o p outside site log h)
    (hplain : (∀ {log} {h : Succession φ σ}, Run o p outside site log h →
      ∀ w ∈ h.services, w.Plain) ∨ o.policy = .fallback) :
    ∀ w ∈ h.services, w.Reaching := by
  refine r.each (fun hf hh _ hw => hw.congr hf hh) Busy.reaching_start ?_
  intro log h r w hmem c? w' hw hs
  refine hw.step (fun hstamped => units_launch_ne_nil ?_) hs
  rcases hplain with hplain | hfallback
  · exact .inl ((hplain r w hmem).stamped hstamped)
  · exact .inr ((r.options w hmem).1.trans hfallback)

/-- A task names other clusters only where they can be reached or the current one stands in for
them: where neither is so and the file names none to begin with, no task ever names clusters, in
the tables or in the file, and every firing is for the cluster that is current when it comes to
that. In both cases no firing is recorded that reached no cluster. -/
theorem Run.never_aborted (r : Run o p outside site log h) :
    (o.policy = .reject → (∀ {fleet}, p fleet → Fleet.routes fleet = false) →
      Store.PlainFile site.files o.path →
      (∀ t ∈ Store.load h.site.files o.path, t.targets = []) ∧
      ∀ w ∈ h.services, (∀ {k t}, w.tasks.get? k = some t → t.targets = []) ∧
        (∀ {t firedAt}, .stamped t firedAt ∈ w.firings →
          ((w.on h.site).launch t firedAt : Flight σ).units =
            [(Fleet.current h.site.fleet, .waiting)]) ∧
        (∀ {k record}, record ∈ w.history.forTask k → record.status ≠ .aborted) ∧
        ∀ {f finishedAt record}, .working f ∈ w.firings → f.record? finishedAt = some record →
          record.status ≠ .aborted) ∧
    (o.policy = .fallback → ∀ w ∈ h.services,
      (∀ {k record}, record ∈ w.history.forTask k → record.status ≠ .aborted) ∧
        ∀ {f finishedAt record}, .working f ∈ w.firings → f.record? finishedAt = some record →
          record.status ≠ .aborted) := by
  constructor
  · intro hreject hp hfile
    obtain ⟨hsite, hplain⟩ := r.plain hreject hp hfile
    have hreaching := r.reaching (.inl fun r => (r.plain hreject hp hfile).2)
    refine ⟨hsite.files _ (.refl ..), fun w hw => ?_⟩
    refine ⟨(hplain w hw).tasks, fun hstamped => ?_, (hreaching w hw).history,
      fun hf => status_of_record ((hreaching w hw).units hf)⟩
    exact units_launch_of_plain ((hplain w hw).stamped hstamped)
  · intro hfallback w hw
    have hreaching := r.reaching (.inr hfallback) w hw
    exact ⟨hreaching.history, fun hf => status_of_record (hreaching.units hf)⟩

end Succession

end Service

namespace Sample

theorem run_fired {o : Options} {p : Cluster.Memory → Prop} {d : Definition} {t : Task}
    {s : Service Cluster.Memory} (hp : p site.fleet)
    (hstamp : ((Service.start site 0 o moment).create moment d "alice").1.stamp moment id
      moment.now = some (s, t)) :
    Service.Succession.Run (σ := Nat) o p (fun _ _ => True) site [(t, moment.now)]
      ⟨s.toSite, [⟨s, none, [], [.stamped t moment.now]⟩]⟩ := by
  have hstart : Service.Succession.Run (σ := Nat) o p (fun _ _ => True) site [] _ :=
    .start rfl hp 0 o moment rfl rfl
  exact (hstart.create moment d "alice").run hstamp

def rejecting : Options :=
  { options with policy := .reject }

def strict : Service Cluster.Memory :=
  (((Service.start site 0 rejecting moment).create moment definition "alice").1.put stamped).persist
    moment

def astray : Task :=
  { Task.ofDefinition elsewhere "alice" moment.now with lastExecuted := some moment.now }

def lenient : Service Cluster.Memory :=
  (((Service.start site 0 options moment).create moment elsewhere "alice").1.put astray).persist
    moment

def rerouted : Cluster.Memory × Flight Nat :=
  Service.workThrough lenient.fleet (lenient.launch astray moment.now) ([0].map .step)

theorem run_strict : Service.Succession.Run (σ := Nat) rejecting (Fleet.routes · = false)
    (fun _ _ => True) site [(stamped, moment.now)]
    ⟨strict.toSite, [⟨strict, none, [], [.stamped stamped moment.now]⟩]⟩ := by
  have hget : ((Service.start site 0 rejecting moment).create moment definition
      "alice").1.tasks.get? id = some (.ofDefinition definition "alice" moment.now) := by
    decide +kernel
  refine run_fired (d := definition) rfl ?_
  simp only [Service.stamp, hget]
  rfl

theorem run_lenient : Service.Succession.Run (σ := Nat) options (fun _ => True)
    (fun _ _ => True) site [(astray, moment.now)]
    ⟨Service.toSite { lenient with fleet := rerouted.1 },
      [⟨{ lenient with fleet := rerouted.1 }, none, [], [.working rerouted.2]⟩]⟩ := by
  have hget : ((Service.start site 0 options moment).create moment elsewhere "alice").1.tasks.get?
      id = some (.ofDefinition elsewhere "alice" moment.now) := by
    decide +kernel
  have hstamp : ((Service.start site 0 options moment).create moment elsewhere "alice").1.stamp
      moment id moment.now = some (lenient, astray) := by
    simp only [Service.stamp, hget]
    rfl
  have hlaunched := (run_fired (p := fun _ => True) trivial hstamp).launch (l := [])
  exact hlaunched.work (l := []) (fun _ _ h => h) (Prod.mk.eta (p := rerouted)).symm

end Sample

/-- The task is fired on the only cluster, and a task for another cluster fails there. -/
theorem Service.Succession.Run.never_aborted_strict :
    (Sample.rejecting.policy = .reject ∧
      Store.PlainFile Sample.site.files Sample.rejecting.path ∧
      (Sample.strict.launch Sample.stamped Sample.moment.now : Flight Nat).units =
        [("east", .waiting)]) ∧
      Sample.options.policy = .fallback ∧
        (Sample.rerouted.2.record? Sample.moment.now).map Record.status = some .failed ∧
        ∀ {record}, Sample.rerouted.2.record? Sample.moment.now = some record →
          record.status ≠ .aborted := by
  have hclosed : Sample.site.files.Closed := closed_startingAt _
  have hempty : Store.load Sample.site.files Sample.rejecting.path = [] := by decide +kernel
  have hfile : Store.PlainFile Sample.site.files Sample.rejecting.path := by
    refine (Store.plainFile_iff hclosed (.inr (by decide))).2 fun t ht => ?_
    rw [hempty] at ht
    cases ht
  obtain ⟨-, hservices⟩ := Sample.run_strict.never_aborted.1 rfl id hfile
  obtain ⟨-, hlaunch, -⟩ := hservices _ (List.mem_singleton_self _)
  have hunits := hlaunch (List.mem_singleton_self _)
  have hcurrent : Fleet.current Sample.strict.fleet = "east" := by decide +kernel
  change (Sample.strict.launch Sample.stamped Sample.moment.now : Flight Nat).units =
    [(Fleet.current Sample.strict.fleet, .waiting)] at hunits
  rw [hcurrent] at hunits
  have hfallback := Sample.run_lenient.never_aborted.2 rfl _ (List.mem_singleton_self _)
  exact ⟨⟨rfl, hfile, hunits⟩, rfl, by decide +kernel,
    hfallback.2 (List.mem_singleton_self _)⟩

end Snapshots
