import Snapshots.Proofs.Firing.Scatter
import Snapshots.Firing.History

/-! # What a firing comes to

The clusters that a firing reaches, and what its record says about them, whatever the order in
which the steps of its work came.
-/

namespace Snapshots

open Cluster Cluster.Memory Firing Time

/-- The snapshot that a firing of a task asks for. -/
def Task.asked (t : Task) (firedAt : Instant) : Spec :=
  t.spec (t.snapshotName firedAt) firedAt

namespace Firing

theorem firsts_filter (p : String → Bool) (l : List String) :
    firsts (l.filter p) = (firsts l).filter p := by
  induction l with
  | nil => rfl
  | cons a l ih =>
    by_cases ha : p a = true
    · simp only [List.filter_cons_of_pos ha, firsts, ih, List.filter_filter, Bool.and_comm]
    · rw [List.filter_cons_of_neg ha, firsts, List.filter_cons_of_neg ha, List.filter_filter, ih]
      refine List.filter_congr fun b _ => ?_
      by_cases hb : b = a
      · simp [hb, ha]
      · simp [hb]

theorem firsts_eq_eraseDups : ∀ l : List String, firsts l = l.eraseDups
  | [] => rfl
  | a :: l => by
    have hlt : (l.filter fun b => !b == a).length < l.length + 1 :=
      Nat.lt_succ_of_le (List.length_filter_le _ _)
    rw [List.eraseDups_cons, ← firsts_eq_eraseDups, firsts_filter, firsts]
    congr 1
    refine List.filter_congr fun b _ => ?_
    by_cases hb : b = a <;> simp [hb]
termination_by l => l.length

theorem nodup_firsts (l : List String) : (firsts l).Nodup := by
  induction l with
  | nil => exact List.nodup_nil
  | cons a l ih => exact List.nodup_cons.2 ⟨by simp [List.mem_filter], ih.filter _⟩

variable {policy : Policy} {m m' : Memory} {task : Task} {firedAt finishedAt : Instant}

theorem nodup_targets : ((targets? policy m task).getD []).Nodup := by
  unfold targets?
  split
  · exact List.nodup_singleton _
  · split
    · exact nodup_firsts _
    · cases policy
      · exact List.nodup_singleton _
      · exact List.nodup_nil

theorem getD_targets : (targets? policy m task).getD [] =
    if task.targets = [] then [m.current]
    else if m.routes = true then task.targets.eraseDups
    else if policy = .fallback then [m.current] else [] := by
  change ((if task.targets = [] then some [m.current] else if m.routes = true then
    some (firsts task.targets) else _).getD []) = _
  rw [firsts_eq_eraseDups]
  split
  · rfl
  · split
    · rfl
    · cases policy <;> rfl

namespace Flight

theorem map_fst_launch : (launch policy m task firedAt : Flight Nat).units.map Prod.fst =
    (targets? policy m task).getD [] := by
  simp [launch, Function.comp_def]

theorem scattered_launch (policy : Policy) (m : Memory) (task : Task) (firedAt : Instant) :
    Scattered m m (task.asked firedAt) (launch policy m task firedAt : Flight Nat).units where
  current_eq := rfl
  routes_eq := rfl
  slots_eq := rfl
  nodup := by
    rw [map_fst_launch]
    exact nodup_targets
  onPath c p hc := by
    obtain ⟨d, -, hd⟩ := List.mem_map.1 hc
    cases hd
    trivial
  servers_eq n := by
    have hnone (c : String) :
        settled (launch policy m task firedAt : Flight Nat).units c = false := by
      simp [settled, launch, Progress.result?]
    cases m.servers[n]? <;> simp [hnone]

end Flight

/-- What a firing comes to on a cluster, by how the cluster stands. -/
def outcomeOn (m : Memory) (spec : Spec) (c : String) : Outcome :=
  .ofResult c ((m.standing c).verdict c spec)

theorem outcomeOn_cases (hsound : m.Sound) (spec : Spec) (c : String) :
    (m.Takes spec c ∧ outcomeOn m spec c = ⟨c, some spec.name, none⟩) ∨
      (¬ m.Takes spec c ∧ ∃ e, outcomeOn m spec c = ⟨c, none, some e⟩) := by
  rcases hsound.verdict_cases spec c with ⟨ht, hv⟩ | ⟨ht, e, hv⟩
  · exact .inl ⟨ht, by rw [outcomeOn, hv]; rfl⟩
  · exact .inr ⟨ht, e.message, by rw [outcomeOn, hv]; rfl⟩

theorem cluster_outcomeOn (m : Memory) (spec : Spec) (c : String) :
    (outcomeOn m spec c).cluster = c := by
  unfold outcomeOn
  cases (m.standing c).verdict c spec <;> rfl

theorem Progress.eq_done {σ : Type} {p : Progress σ} {r : Except TargetError Created}
    (h : p.result? = some r) : p = .done r := by
  cases p <;> cases h
  rfl

theorem mapM_result?_eq_some_iff {spec : Spec} {units : List (String × Progress Nat)}
    (hpath : ∀ c p, (c, p) ∈ units → p.OnPath m spec c) {os : List Outcome} :
    (units.mapM fun u => u.2.result?.map (.ofResult u.1)) = some os ↔
      (∀ u ∈ units, u.2.result?.isSome = true) ∧
        os = (units.map Prod.fst).map (outcomeOn m spec) := by
  induction units generalizing os with
  | nil =>
    constructor
    · intro h
      cases h
      exact ⟨by simp, rfl⟩
    · rintro ⟨-, rfl⟩
      rfl
  | cons u units ih =>
    obtain ⟨c, p⟩ := u
    have hrest : ∀ c p, (c, p) ∈ units → p.OnPath m spec c :=
      fun d q hd => hpath d q (List.mem_cons_of_mem _ hd)
    rw [List.mapM_cons, List.forall_mem_cons]
    cases hp : p.result? with
    | none => simp
    | some r =>
      have hr : .ofResult c r = outcomeOn m spec c := by
        have hdone : p.OnPath m spec c := hpath c p List.mem_cons_self
        rw [Progress.eq_done hp] at hdone
        rw [outcomeOn, ← hdone]
      simp only [Option.map_some, hr, Option.bind_eq_bind, Option.bind_some,
        Option.bind_eq_some_iff, ih hrest, Option.isSome_some, true_and, List.map_cons]
      constructor
      · rintro ⟨_, ⟨hdone, rfl⟩, h⟩
        exact ⟨hdone, (Option.some.inj h).symm⟩
      · rintro ⟨hdone, rfl⟩
        exact ⟨_, ⟨hdone, rfl⟩, rfl⟩

/-- What a status says about the outcomes. -/
def Status.Describes (outcomes : List Outcome) : Status → Prop
  | aborted => outcomes = []
  | success => outcomes ≠ [] ∧ ∀ o ∈ outcomes, o.error = none
  | failed => outcomes ≠ [] ∧ ∀ o ∈ outcomes, o.error ≠ none
  | partialFailure => (∃ o ∈ outcomes, o.error = none) ∧ ∃ o ∈ outcomes, o.error ≠ none

theorem Status.describes_classify (outcomes : List Outcome) :
    (classify outcomes).Describes outcomes := by
  have hnone : outcomes.countP (·.error.isSome) = 0 ↔ ∀ o ∈ outcomes, o.error = none := by
    simp [List.countP_eq_zero]
  have hall : outcomes.countP (·.error.isSome) = outcomes.length ↔
      ∀ o ∈ outcomes, o.error ≠ none := by
    simp [List.countP_eq_length, Option.isSome_iff_ne_none]
  simp only [classify, hnone, hall]
  split
  · assumption
  · rename_i hnil
    split
    · rename_i h
      exact ⟨hnil, h⟩
    · rename_i hsome
      split
      · rename_i h
        exact ⟨hnil, h⟩
      · rename_i hnot
        simp only [not_forall, not_not, exists_prop] at hnot hsome
        exact ⟨hnot, hsome⟩

theorem Status.Describes.unique {outcomes : List Outcome} {st st' : Status}
    (h : st.Describes outcomes) (h' : st'.Describes outcomes) : st = st' := by
  by_cases hnil : outcomes = []
  · cases st <;> cases st' <;> simp_all [Describes]
  · obtain ⟨o, ho⟩ := List.exists_mem_of_ne_nil _ hnil
    cases st <;> cases st' <;> simp only [Describes] at h h' <;> grind

theorem Status.classify_eq_iff {outcomes : List Outcome} {st : Status} :
    classify outcomes = st ↔ st.Describes outcomes := by
  constructor
  · rintro rfl
    exact describes_classify outcomes
  · exact (describes_classify outcomes).unique

/-- What a record says of a firing on the clusters of a fleet, and what the firing has made of the
fleet. -/
structure Gathered (policy : Policy) (m : Memory) (task : Task) (firedAt finishedAt : Instant)
    (m' : Memory) (r : Record) : Prop where
  taskId_eq : r.taskId = task.id
  snapshotName_eq : r.snapshotName = task.name ++ "-" ++ toString firedAt.seconds
  firedAt_eq : r.firedAt = firedAt
  finishedAt_eq : r.finishedAt = finishedAt
  /-- The outcomes are those of the clusters that the firing reaches, in their order. -/
  clusters_eq : r.outcomes.map (·.cluster) =
    if task.targets = [] then [m.current]
    else if m.routes = true then task.targets.eraseDups
    else if policy = .fallback then [m.current] else []
  /-- An outcome depends on how its own cluster stands only. -/
  eq_outcomeOn : ∀ o ∈ r.outcomes, o = outcomeOn m (task.asked firedAt) o.cluster
  /-- An outcome is either a snapshot or an error. -/
  either : ∀ o ∈ r.outcomes, o.snapshot = some r.snapshotName ∧ o.error = none ∨
    o.snapshot = none ∧ ∃ e, o.error = some e
  snapshot_iff : ∀ o ∈ r.outcomes,
    o.snapshot = some r.snapshotName ↔ m.Takes (task.asked firedAt) o.cluster
  status_iff : ∀ st, r.status = st ↔ st.Describes r.outcomes
  current_eq : m'.current = m.current
  routes_eq : m'.routes = m.routes
  slots_eq : m'.slots = m.slots
  /-- The servers of the clusters with a snapshot have one more, and all others are as before. -/
  servers_eq : ∀ n, m'.servers[n]? = (m.servers[n]?).map fun s =>
    if m.slots.get? s.name = some (.online n) ∧
        ∃ o ∈ r.outcomes, o.cluster = s.name ∧ o.error = none then
      { s with snapshots := s.snapshots ++ [task.asked firedAt] }
    else s
  /-- The record comes first in the history of the task, and nowhere else. -/
  forTask_record : ∀ (h : History) (id : String), (h.record r).forTask id =
    if id = task.id then (r :: h.forTask id).take h.limit else h.forTask id
  latest?_record : ∀ h : History, (h.record r).latest? task.id = some r

theorem settled_iff {units : List (String × Progress Nat)} {c : String}
    (hdone : ∀ u ∈ units, u.2.result?.isSome = true) :
    settled units c = true ↔ c ∈ units.map Prod.fst := by
  simp only [settled, List.any_eq_true, Bool.and_eq_true, decide_eq_true_eq, List.mem_map]
  constructor
  · rintro ⟨u, hu, hc, -⟩
    exact ⟨u, hu, hc⟩
  · rintro ⟨u, hu, hc⟩
    exact ⟨u, hu, hc, hdone u hu⟩

theorem exists_outcomeOn_iff (hsound : m.Sound) {spec : Spec} {cs : List String} {c : String} :
    (∃ o ∈ cs.map (outcomeOn m spec), o.cluster = c ∧ o.error = none) ↔
      c ∈ cs ∧ m.Takes spec c := by
  constructor
  · rintro ⟨o, ho, hc, hnone⟩
    obtain ⟨d, hd, rfl⟩ := List.mem_map.1 ho
    rw [cluster_outcomeOn] at hc
    subst hc
    rcases outcomeOn_cases hsound spec d with ⟨ht, -⟩ | ⟨-, e, he⟩
    · exact ⟨hd, ht⟩
    · rw [he] at hnone
      cases hnone
  · rintro ⟨hc, ht⟩
    rcases outcomeOn_cases hsound spec c with ⟨-, ho⟩ | ⟨hnot, -⟩
    · exact ⟨_, List.mem_map_of_mem hc, by rw [ho]; exact ⟨rfl, rfl⟩⟩
    · exact absurd ht hnot

theorem Scattered.servers_of_done {spec : Spec} {units : List (String × Progress Nat)}
    (h : Scattered m m' spec units) (hsound : m.Sound)
    (hdone : ∀ u ∈ units, u.2.result?.isSome = true) (n : Nat) :
    m'.servers[n]? = (m.servers[n]?).map fun s =>
      if m.slots.get? s.name = some (.online n) ∧
        ∃ o ∈ (units.map Prod.fst).map (outcomeOn m spec), o.cluster = s.name ∧ o.error = none
      then { s with snapshots := s.snapshots ++ [spec] } else s := by
  rw [h.servers_eq]
  cases hs : m.servers[n]? with
  | none => rfl
  | some s =>
    rw [Option.map_some, Option.map_some]
    congr 1
    by_cases hslot : m.slots.get? s.name = some (.online n)
    · have htakes : m.Takes spec s.name ↔ s.Takes spec := Memory.takes_iff hslot hs
      by_cases ht : s.Takes spec
      -- All work is done, so the cluster is settled exactly if it is one of the firing.
      · rw [Server.after_of_takes ht]
        refine if_congr (and_congr_right fun _ => ?_) rfl rfl
        rw [settled_iff hdone, exists_outcomeOn_iff hsound, htakes]
        exact ⟨fun hc => ⟨hc, ht⟩, And.left⟩
      · rw [Server.after_of_not_takes ht, ite_self, if_neg]
        rintro ⟨-, hout⟩
        exact ht (htakes.1 ((exists_outcomeOn_iff hsound).1 hout).2)
    · rw [if_neg fun hc => hslot hc.1, if_neg fun hc => hslot hc.1]

/-- The record of a firing whose work is done. -/
theorem Scattered.gathered (hsound : m.Sound) {f : Flight Nat}
    (h : Scattered m m' f.spec f.units)
    (hon : (Flight.launch policy m task firedAt : Flight Nat).Onward f) {r : Record}
    (hr : f.record? finishedAt = some r) :
    Gathered policy m task firedAt finishedAt m' r := by
  have hspec : f.spec = task.asked firedAt := hon.spec_eq
  have hclusters := hon.clusters_eq
  rw [Flight.map_fst_launch, getD_targets] at hclusters
  rw [hspec] at h
  obtain ⟨os, hos, rfl⟩ := Option.map_eq_some_iff.1 hr
  obtain ⟨hdone, rfl⟩ := (mapM_result?_eq_some_iff h.onPath).1 hos
  have hid : f.task.id = task.id := congrArg Task.id hon.task_eq
  have hname : f.snapshotName = (task.asked firedAt).name := congrArg Spec.name hspec
  have hown : ∀ o ∈ (f.units.map Prod.fst).map (outcomeOn m (task.asked firedAt)),
      o = outcomeOn m (task.asked firedAt) o.cluster := by
    rintro o ho
    obtain ⟨c, -, rfl⟩ := List.mem_map.1 ho
    rw [cluster_outcomeOn]
  exact {
    taskId_eq := hid
    snapshotName_eq := hname
    firedAt_eq := hon.firedAt_eq
    finishedAt_eq := rfl
    clusters_eq := by
      rw [← hclusters]
      simp [Record.ofOutcomes, cluster_outcomeOn]
    eq_outcomeOn := hown
    either o ho := by
      rw [hown o ho]
      rcases outcomeOn_cases hsound (task.asked firedAt) o.cluster with ⟨-, heq⟩ | ⟨-, e, heq⟩
      · rw [heq]
        exact .inl ⟨congrArg some hname.symm, rfl⟩
      · rw [heq]
        exact .inr ⟨rfl, e, rfl⟩
    snapshot_iff o ho := by
      conv_lhs => rw [hown o ho]
      rcases outcomeOn_cases hsound (task.asked firedAt) o.cluster with ⟨ht, heq⟩ | ⟨ht, e, heq⟩
      · rw [heq]
        exact iff_of_true (congrArg some hname.symm) ht
      · rw [heq]
        exact iff_of_false (by simp) ht
    status_iff _ := Status.classify_eq_iff
    current_eq := h.current_eq
    routes_eq := h.routes_eq
    slots_eq := h.slots_eq
    servers_eq := h.servers_of_done hsound hdone
    forTask_record hist id := by
      rw [History.forTask_record]
      exact if_congr (by rw [← hid]; rfl) rfl rfl
    latest?_record hist := by
      rw [← hid]
      exact hist.latest?_record _ }

theorem Scattered.record?_isSome {f : Flight Nat} {spec : Spec} (h : Scattered m m' spec f.units)
    (hrank : ∀ j < f.units.length, 3 ≤ f.rank j) (finishedAt : Instant) :
    (f.record? finishedAt).isSome = true := by
  have hdone : ∀ u ∈ f.units, u.2.result?.isSome = true := by
    intro u hu
    obtain ⟨j, hj, rfl⟩ := List.mem_iff_getElem.1 hu
    have hthree : 3 ≤ f.units[j].2.rank := by simpa [Flight.rank, hj] using hrank j hj
    exact Progress.result?_isSome_iff.2 (Nat.le_antisymm f.units[j].2.rank_le hthree)
  have hos := (mapM_result?_eq_some_iff h.onPath).2 ⟨hdone, rfl⟩
  rw [Flight.record?, Flight.outcomes?, Option.isSome_map]
  exact Option.isSome_of_eq_some hos

/-- The work of a firing on clusters in memory, its steps in any order. Whenever it is done, its
record and the fleet are the same ones, and it is done as soon as every cluster had three steps. -/
theorem scatter_gather (hsound : m.Sound) (policy : Policy) (task : Task)
    (firedAt finishedAt : Instant) (steps : List Nat) {f : Flight Nat}
    (hrun : Service.workThrough m (.launch policy m task firedAt) (steps.map .step) = (m', f)) :
    (∀ r, f.record? finishedAt = some r → Gathered policy m task firedAt finishedAt m' r) ∧
      ((∀ c ∈ (targets? policy m task).getD [], Free m c) →
        (∀ i < ((targets? policy m task).getD []).length, 3 ≤ steps.count i) →
        (f.record? finishedAt).isSome = true) := by
  have hstart := Flight.scattered_launch policy m task firedAt
  obtain ⟨h, hon⟩ := Scattered.run hsound steps (f := .launch policy m task firedAt) hstart hrun
  refine ⟨fun r hr => h.gathered hsound hon hr, fun hfree hsteps => ?_⟩
  refine h.record?_isSome (fun j hj => ?_) finishedAt
  have hclusters : (Flight.launch policy m task firedAt : Flight Nat).units.map Prod.fst = _ :=
    Flight.map_fst_launch
  rw [← hclusters] at hfree hsteps
  rw [hon.length_eq] at hj
  have hcount : 3 ≤ steps.count j := hsteps j (by rwa [List.length_map])
  have hrank := Scattered.rank_run hsound steps (f := .launch policy m task firedAt) hstart hfree
    hrun hj
  omega

theorem free_of_servers (h : ∀ s ∈ m.servers, s.held = false) (c : String) : Free m c :=
  fun _ s _ hs => h s (List.mem_of_getElem? hs)

def Sample.spread : Task :=
  .ofDefinition { Sample.definition with targets := ["east", "west", "east", "north"] } "alice"
    Sample.moment.now

def Sample.fleet : Memory :=
  (((Memory.new "east" true).add { name := "east", volumes := [("prod", "db-pvc")] }).add
    { name := "west" }).disable "north"

theorem Sample.sound_fleet : Sample.fleet.Sound :=
  Sound.disable (Sound.add (Sound.add (sound_new "east" true) _) _) "north"

def Sample.work : Memory × Flight Nat :=
  Service.workThrough fleet (.launch .reject fleet spread Sample.moment.now)
    ([2, 0, 1, 0, 2, 1, 0, 1, 2].map .step)

theorem scatter_gather_interleaved :
    Sample.fleet.Sound ∧
    (∀ c ∈ (targets? .reject Sample.fleet Sample.spread).getD [], Free Sample.fleet c) ∧
    (∀ i < ((targets? .reject Sample.fleet Sample.spread).getD []).length,
      3 ≤ [2, 0, 1, 0, 2, 1, 0, 1, 2].count i) ∧
    ∃ r, Sample.work.2.record? Sample.moment.now = some r ∧ r.status = .partialFailure ∧
      Gathered .reject Sample.fleet Sample.spread Sample.moment.now Sample.moment.now
        Sample.work.1 r := by
  have hrun : Service.workThrough Sample.fleet
      (.launch .reject Sample.fleet Sample.spread Sample.moment.now)
      ([2, 0, 1, 0, 2, 1, 0, 1, 2].map .step) = (Sample.work.1, Sample.work.2) := rfl
  obtain ⟨hgathered, hdone⟩ := scatter_gather Sample.sound_fleet .reject Sample.spread
    Sample.moment.now Sample.moment.now [2, 0, 1, 0, 2, 1, 0, 1, 2] hrun
  have hfree (c : String) : Free Sample.fleet c := free_of_servers (by decide) c
  have hthrice : ∀ i < ((targets? .reject Sample.fleet Sample.spread).getD []).length,
      3 ≤ [2, 0, 1, 0, 2, 1, 0, 1, 2].count i := by
    decide
  obtain ⟨r, hr⟩ := Option.isSome_iff_exists.1 (hdone (fun c _ => hfree c) hthrice)
  have hstatus : (Sample.work.2.record? Sample.moment.now).map (·.status) =
      some .partialFailure := by
    decide +kernel
  rw [hr] at hstatus
  exact ⟨Sample.sound_fleet, fun c _ => hfree c, hthrice, r, hr, Option.some.inj hstatus,
    hgathered r hr⟩

theorem Gathered.eq_of_standing {policy' : Policy} {m₂ m₂' : Memory} {finishedAt' : Instant}
    {r r' : Record} (h : Gathered policy m task firedAt finishedAt m' r)
    (h' : Gathered policy' m₂ task firedAt finishedAt' m₂' r') {o o' : Outcome}
    (ho : o ∈ r.outcomes) (ho' : o' ∈ r'.outcomes) (hc : o.cluster = o'.cluster)
    (hstanding : m.standing o.cluster = m₂.standing o.cluster) : o = o' := by
  rw [h.eq_outcomeOn o ho, h'.eq_outcomeOn o' ho', ← hc, outcomeOn, outcomeOn, hstanding]

theorem Gathered.outcomes_eq {r : Record} (h : Gathered policy m task firedAt finishedAt m' r) :
    r.outcomes = (r.outcomes.map (·.cluster)).map (outcomeOn m (task.asked firedAt)) := by
  rw [List.map_map]
  conv_lhs => rw [← List.map_id r.outcomes]
  exact List.map_congr_left h.eq_outcomeOn

/-- The order of the steps makes no difference: the record and the fleet are always the same. -/
theorem Gathered.unique {m₁ m₂ : Memory} {r₁ r₂ : Record}
    (h₁ : Gathered policy m task firedAt finishedAt m₁ r₁)
    (h₂ : Gathered policy m task firedAt finishedAt m₂ r₂) : r₁ = r₂ ∧ m₁ = m₂ := by
  have houtcomes : r₁.outcomes = r₂.outcomes := by
    rw [h₁.outcomes_eq, h₂.outcomes_eq, h₁.clusters_eq, h₂.clusters_eq]
  have hstatus : r₁.status = r₂.status := by
    rw [h₁.status_iff, houtcomes, ← h₂.status_iff]
  have hservers : m₁.servers = m₂.servers := by
    refine List.ext_getElem? fun n => ?_
    rw [h₁.servers_eq, h₂.servers_eq, houtcomes]
  constructor
  · have hid := h₁.taskId_eq.trans h₂.taskId_eq.symm
    have hname := h₁.snapshotName_eq.trans h₂.snapshotName_eq.symm
    have hfired := h₁.firedAt_eq.trans h₂.firedAt_eq.symm
    have hfinished := h₁.finishedAt_eq.trans h₂.finishedAt_eq.symm
    cases r₁
    cases r₂
    exact (Record.mk.injEq ..).mpr ⟨hid, hname, hfired, hfinished, hstatus, houtcomes⟩
  · have hcurrent := h₁.current_eq.trans h₂.current_eq.symm
    have hroutes := h₁.routes_eq.trans h₂.routes_eq.symm
    have hslots := h₁.slots_eq.trans h₂.slots_eq.symm
    cases m₁
    cases m₂
    exact (Memory.mk.injEq ..).mpr ⟨hcurrent, hroutes, hservers, hslots⟩

/-- The places of so many clusters, each three times in turn. -/
def inTurn (start : Nat) : Nat → List Nat
  | 0 => []
  | n + 1 => start :: start :: start :: inTurn (start + 1) n

theorem workThrough_inTurn {φ σ : Type} [Fleet φ σ] (fleet : φ) (f : Flight σ)
    (l units : List (String × Progress σ)) :
    Service.workThrough fleet { f with units := l ++ units }
        ((inTurn l.length units.length).map .step) =
      ((Flight.runUnits f.spec fleet units).1,
        { f with units := l ++ (Flight.runUnits f.spec fleet units).2 }) := by
  induction units generalizing fleet l with
  | nil => rfl
  | cons u units ih =>
    obtain ⟨c, p⟩ := u
    have hstep (fleet : φ) (q : Progress σ) :
        ({ f with units := l ++ (c, q) :: units } : Flight σ).step fleet l.length =
          ((q.step c f.spec fleet).1,
            { f with units := l ++ (c, (q.step c f.spec fleet).2) :: units }) :=
      Flight.step_at fleet _ rfl
    have hrest := ih (p.run c f.spec fleet).1 (l ++ [(c, (p.run c f.spec fleet).2)])
    simp only [List.length_append, List.length_singleton, List.append_assoc,
      List.singleton_append] at hrest
    simp only [List.length_cons, inTurn, List.map_cons, Service.workThrough, hstep]
    exact hrest

/-- A firing that is carried on comes to what any other order of its work comes to. -/
theorem gathered_run (hsound : m.Sound) {f : Flight Nat}
    (hrun : (Flight.launch policy m task firedAt : Flight Nat).run m = (m', f)) {r : Record}
    (hr : f.record? finishedAt = some r) : Gathered policy m task firedAt finishedAt m' r := by
  have hturn := workThrough_inTurn m (Flight.launch policy m task firedAt : Flight Nat) []
    (Flight.launch policy m task firedAt : Flight Nat).units
  obtain ⟨h, hon⟩ := Scattered.run hsound _ (f := .launch policy m task firedAt)
    (Flight.scattered_launch policy m task firedAt) (hturn.trans hrun)
  exact h.gathered hsound hon hr

end Firing

end Snapshots
