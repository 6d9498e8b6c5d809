import Snapshots.Cli.Run
import Snapshots.Proofs.Cli.Options
import Snapshots.Proofs.Service.Alike

/-! # The command that changes a task

Its options name fields. What they name is changed, in the task and in the file, and all else stays;
a command that fails leaves the files as they were.
-/

namespace Snapshots

open Time

/-! ### Updates of a service -/

namespace Service

variable {φ σ : Type} [Fleet φ σ] {m : Moment}

theorem update_effect (s : Service φ) (m : Moment) (id : String) (d : Definition) :
    (∃ e, (s.update m id d).2 = .error e ∧ (s.update m id d).1.files = s.files) ∨
      ∃ previous handles engine t, s.tasks.get? id = some previous ∧
        s.update m id d =
          (({ s with handles, engine }.put (previous.apply d m.now)).persist m, .ok t) := by
  rcases s.update_cases m id d with
    ⟨e, -, hu, -⟩ | ⟨previous, -, ht, ⟨-, ⟨s', e, hr, hu, -⟩ | ⟨s', h, hr, hu, -⟩⟩ | ⟨-, hu, -⟩⟩
  · rw [hu]
    exact .inl ⟨e, rfl, rfl⟩
  · rw [hu]
    refine .inl ⟨.scheduling e, rfl, ?_⟩
    rw [(register_eq hr).2]
    unfold reinstate
    split
    · rfl
    · rfl
  · rw [hu, (register_eq hr).2]
    exact .inr ⟨previous, s'.handles, s'.engine, _, ht, rfl⟩
  · rw [hu]
    exact .inr ⟨previous, _, _, _, ht, rfl⟩

theorem Mirrored.load_put {s : Service φ} (hs : Mirrored s) {t : Task} (hk : Store.kept t = t)
    (hw : ∀ ts, (Store.saveWith m.fails s.options.process s.files s.options.path ts).2 = .ok ()) :
    (∀ k, (Store.load ((s.put t).persist m).files s.options.path).find? (·.id = k) =
        if k = t.id then some t else s.tasks.get? k) ∧
      ((Store.load ((s.put t).persist m).files s.options.path).map Task.id).Nodup := by
  have hfiled : Filed (s.put t).tasks := hs.toFiled.insert hk
  constructor
  · intro k
    rw [← Table.get?_insert]
    exact (mirrored_persist hfiled (hw _)).find?_load k
  · have hload : Store.load ((s.put t).persist m).files s.options.path =
        Task.sorted ((s.put t).tasks.values.map Store.kept) :=
      Store.load_eq_of_saveWith (Prod.ext rfl (hw _))
    rw [hload, hfiled.map_kept_values]
    exact ((Task.sorted_perm _).map Task.id).nodup_iff.2 hfiled.nodup_ids

end Service

namespace Cli

/-! ### The options of the command -/

/-- The fields that are to be changed, as a user names them. -/
structure UpdateFlags where
  name : Option String := none
  ns : Option String := none
  sourceVolume : Option String := none
  snapshotClass : Option String := none
  cron : Option String := none
  targets : List String := []
  clearTargets : Bool := false
  enabled : Option Bool := none
  /-- The targets are not both given and cleared. -/
  apart : clearTargets = true → targets = [] := by decide

namespace UpdateFlags

/-- The change that the fields are read as. -/
def change (f : UpdateFlags) : TaskChange where
  name := f.name
  ns := f.ns
  sourceVolume := f.sourceVolume
  snapshotClass := f.snapshotClass
  cron := f.cron
  targets := if f.clearTargets then some [] else if f.targets = [] then none else some f.targets
  enabled := f.enabled

/-- A task with the fields that are named changed. -/
def applied (f : UpdateFlags) (t : Task) (now : Instant) : Task :=
  { t with
    name := f.name.getD t.name
    ns := f.ns.getD t.ns
    sourceVolume := f.sourceVolume.getD t.sourceVolume
    snapshotClass := f.snapshotClass.getD t.snapshotClass
    cron := f.cron.getD t.cron
    targets := if f.clearTargets then [] else if f.targets = [] then t.targets else f.targets
    enabled := f.enabled.getD t.enabled
    updatedAt := now }

def sheet (f : UpdateFlags) (id : String) : Sheet where
  entries := [
    (needed "id", [id]),
    ({ name := "name" }, f.name.toList),
    ({ name := "namespace" }, f.ns.toList),
    ({ name := "volume" }, f.sourceVolume.toList),
    ({ name := "class" }, f.snapshotClass.toList),
    ({ name := "cron" }, f.cron.toList),
    ({ name := "target", arity := .many }, f.targets),
    ({ name := "clear-targets", arity := .flag, excludes := some "target" },
      if f.clearTargets then [""] else []),
    ({ name := "enabled", accepts := fun s => (bool? s).isSome },
      f.enabled.toList.map fun b => toString b)]
  apart := by
    show ["id", "name", "namespace", "volume", "class", "cron", "target", "clear-targets",
      "enabled"].Nodup
    decide
  once := by
    have hopt : ∀ {β : Type} (o : Option β), o.toList.length ≤ 1 := by
      intro β o
      cases o <;> simp
    simp [needed, hopt]
    split <;> simp

/-- The arguments that ask for a change of a task. -/
def words (f : UpdateFlags) (id : String) : List String :=
  ["task", "update"] ++ (f.sheet id).row.map Written.text

theorem fits_sheet (f : UpdateFlags) (id : String) :
    ∀ e ∈ (f.sheet id).entries, ∀ v ∈ e.2, (Written.mk e.1 v).Fits := by
  intro e he v hv
  simp only [sheet, List.mem_cons, List.not_mem_nil, or_false] at he
  rcases he with rfl | rfl | rfl | rfl | rfl | rfl | rfl | rfl | rfl
  case inr.inr.inr.inr.inr.inr.inr.inl =>
    refine ⟨rfl, fun _ => ?_⟩
    change v ∈ if f.clearTargets then [""] else [] at hv
    split at hv
    · exact List.mem_singleton.1 hv
    · cases hv
  case inr.inr.inr.inr.inr.inr.inr.inr =>
    obtain ⟨b, -, rfl⟩ := List.mem_map.1 hv
    refine ⟨?_, fun h => by cases h⟩
    cases b
    · rfl
    · rfl
  all_goals exact ⟨rfl, fun h => by cases h⟩

def reader : Reader Invocation where
  verb := updateVerb
  shared := [configOption]
  atTop := false

theorem request_cons (args : List String) :
    request ("task" :: "update" :: args) = reader.read args := rfl

theorem value?_sheet (f : UpdateFlags) (id : String) (rule : OptionRule) {o : Option String}
    (h : (rule, o.toList) ∈ (f.sheet id).entries) : (f.sheet id).given.value? rule.name = o := by
  rw [Sheet.value?_given h]
  cases o <;> rfl

theorem targets_sheet (f : UpdateFlags) (id : String) :
    (f.sheet id).given.values "target" = f.targets ∧
      (f.sheet id).given.has "target" = !f.targets.isEmpty ∧
      (f.sheet id).given.has "clear-targets" = f.clearTargets := by
  have htarget : ({ name := "target", arity := .many }, f.targets) ∈ (f.sheet id).entries := by
    simp [sheet]
  have hclear : ({ name := "clear-targets", arity := .flag, excludes := some "target" },
      if f.clearTargets then [""] else []) ∈ (f.sheet id).entries := by
    simp [sheet]
  refine ⟨Sheet.values_given htarget, Sheet.has_given htarget, ?_⟩
  refine (Sheet.has_given hclear).trans ?_
  cases f.clearTargets
  · rfl
  · rfl

theorem givenTargets?_sheet (f : UpdateFlags) (id : String) :
    givenTargets? (f.sheet id).given = f.change.targets := by
  obtain ⟨htargets, htarget, hclear⟩ := f.targets_sheet id
  rw [givenTargets?, htargets, htarget, hclear]
  simp only [change]
  cases f.targets
  · rfl
  · rfl

theorem fits_given (f : UpdateFlags) (id : String) :
    (f.sheet id).given.fits updateVerb.options 0 = true := by
  obtain ⟨-, htarget, hclear⟩ := f.targets_sheet id
  have hid : (f.sheet id).given.has "id" = true :=
    Sheet.has_given (show (needed "id", [id]) ∈ _ from .head _)
  have hapart : f.clearTargets = false ∨ f.targets = [] := by
    cases hc : f.clearTargets
    · exact .inl rfl
    · exact .inr (f.apart hc)
  have hoperands : (f.sheet id).given.operands = [] := rfl
  simp [Given.fits, updateVerb, taskVerb, verb, Verb.options, needed, hid, htarget, hclear,
    hoperands, hapart]

theorem finish_sheet (f : UpdateFlags) (id : String) :
    { reader with given := (f.sheet id).given }.finish =
      .run ⟨none, .task (.update id f.change)⟩ := by
  have hid : (f.sheet id).given.value? "id" = some id :=
    f.value?_sheet id (needed "id") (o := some id) (.head _)
  have hname : (f.sheet id).given.value? "name" = f.name :=
    f.value?_sheet id { name := "name" } (by simp [sheet])
  have hns : (f.sheet id).given.value? "namespace" = f.ns :=
    f.value?_sheet id { name := "namespace" } (by simp [sheet])
  have hvolume : (f.sheet id).given.value? "volume" = f.sourceVolume :=
    f.value?_sheet id { name := "volume" } (by simp [sheet])
  have hclass : (f.sheet id).given.value? "class" = f.snapshotClass :=
    f.value?_sheet id { name := "class" } (by simp [sheet])
  have hcron : (f.sheet id).given.value? "cron" = f.cron :=
    f.value?_sheet id { name := "cron" } (by simp [sheet])
  have henabled : ((f.sheet id).given.value? "enabled").bind bool? = f.enabled := by
    have hgiven : ({ name := "enabled", accepts := fun s => (bool? s).isSome },
        f.enabled.toList.map fun b => toString b) ∈ (f.sheet id).entries := by
      simp [sheet]
    refine (congrArg (·.bind bool?) (Sheet.value?_given hgiven)).trans ?_
    rcases f.enabled with _ | b
    · rfl
    · cases b <;> rfl
  have hconfig : (f.sheet id).given.value? "config" = none := by
    apply Sheet.value?_given_of_not_mem
    show "config" ∉ ["id", "name", "namespace", "volume", "class", "cron", "target",
      "clear-targets", "enabled"]
    decide
  have hfits := f.fits_given id
  simp only [updateVerb, taskVerb, verb, Verb.options] at hfits
  simp only [Reader.finish, reader, updateVerb, taskVerb, verb, hfits, if_true, configOption, hid,
    hname, hns, hvolume, hclass, hcron, henabled, hconfig, f.givenTargets?_sheet id]
  rfl

/-- Any fields that a user names are read as what is to be changed. -/
theorem request_words (f : UpdateFlags) (id : String) :
    request (f.words id) = .run ⟨none, .task (.update id f.change)⟩ := by
  rw [words, List.cons_append, List.cons_append, List.nil_append, request_cons,
    Reader.read_sheet rfl rfl rfl (by decide) (f.fits_sheet id)]
  exact f.finish_sheet id

end UpdateFlags

/-! ### What the command does -/

/-- What an update leaves of the tasks of a file: the task with its fields changed, every other
identity as before, and each identity once. -/
structure Updated (f : UpdateFlags) (id : String) (now : Instant) (before after : List Task) :
    Prop where
  task : ∃ t, before.find? (·.id = id) = some t ∧ after.find? (·.id = id) = some (f.applied t now)
  other : ∀ k, k ≠ id → after.find? (·.id = k) = before.find? (·.id = k)
  once : (after.map Task.id).Nodup

section

variable {φ σ : Type} [Fleet φ σ]

theorem apply_definition (f : UpdateFlags) (s : Service φ) {t : Task} (hk : Store.kept t = t)
    (now : Instant) : t.apply (f.change.definition (s.view t)) now = f.applied t now := by
  have hnext : t.nextExecution = none := congrArg Task.nextExecution hk.symm
  have htargets : f.change.targets.getD t.targets =
      if f.clearTargets then [] else if f.targets = [] then t.targets else f.targets := by
    simp only [UpdateFlags.change]
    split
    · rfl
    · split
      · rfl
      · rfl
  simp only [Task.apply, UpdateFlags.applied, TaskChange.definition, Service.view, htargets, hnext]
  rfl

theorem updateTask_effect (m : Moment) (f : UpdateFlags) (id : String) {h : Host φ σ}
    (hs : Service.Mirrored h.toService) :
    (∃ e, (updateTask h m id f.change).2 = .error e ∧
        (updateTask h m id f.change).1.files = h.files) ∨
      ∃ t, (updateTask h m id f.change).2 = .ok t ∧
        ((∀ ts, (Store.saveWith m.fails h.options.process h.files h.options.path ts).2 = .ok ()) →
          Updated f id m.now (Store.load h.files h.options.path)
            (Store.load (updateTask h m id f.change).1.files h.options.path)) := by
  unfold updateTask
  cases hg : h.toService.get id with
  | error e => exact .inl ⟨e, rfl, rfl⟩
  | ok t =>
    simp only
    rcases h.toService.update_effect m id (f.change.definition t) with
      ⟨e, he, hf⟩ | ⟨previous, handles, engine, t', ht, hu⟩
    · exact .inl ⟨e, he, hf⟩
    · refine .inr ⟨t', by rw [hu], fun hw => ?_⟩
      have hview : t = h.toService.view previous := by
        simp only [Service.get, Service.find, ht, Except.map, Except.ok.injEq] at hg
        exact hg.symm
      have hk := hs.kept_eq ht
      have hid : (f.applied previous m.now).id = id := (hs.id_eq ht : previous.id = id)
      have hm : Service.Mirrored { h.toService with handles, engine } :=
        ⟨hs.toFiled, hs.find?_load⟩
      rw [hview, apply_definition f h.toService hk] at hu
      have hkept : Store.kept (f.applied previous m.now) = f.applied previous m.now :=
        congrArg (fun t => f.applied t m.now) hk
      obtain ⟨hload, hnodup⟩ := hm.load_put (m := m) hkept hw
      rw [hview, hu]
      refine ⟨⟨previous, ?_, ?_⟩, ?_, hnodup⟩
      · rw [hs.find?_load, ht]
      · rw [hload, if_pos hid.symm]
      · intro k hk
        rw [hload, if_neg (hid.symm ▸ hk), hs.find?_load]

end

theorem respond_update {w : Surroundings} {m : Moment} {args : List String} {config : Option String}
    {c : Config} {id : String} {change : TaskChange}
    (hargs : request args = .run ⟨config, .task (.update id change)⟩)
    (hc : configOf w ⟨config, .task (.update id change)⟩ = .ok c) :
    ∃ output, respond w m args = .finish (.of
      (updateTask (w.host c (.manual (.new m.now)) m) m id change).1.files
      (((updateTask (w.host c (.manual (.new m.now)) m) m id change).2.mapError .task).map
        output)) := by
  simp only [respond, hargs, hc, perform, runTaskCommand]
  exact ⟨_, rfl⟩

/-- Any fields that a user names are read as a change of a task, and however a command line asks for
that change, the command ends. If it fails, no file has changed. If it succeeds and the task file
can be written, then the task in the file is the one before with the named fields and the time of
the update changed and no other, and every other task is as before. -/
theorem update_changes_named (f : UpdateFlags) (id : String) :
    request (f.words id) = .run ⟨none, .task (.update id f.change)⟩ ∧
      ∀ {w : Surroundings} {m : Moment} {args : List String} {config : Option String},
        request args = .run ⟨config, .task (.update id f.change)⟩ →
        ∃ ending, respond w m args = .finish ending ∧
          (ending.code ≠ 0 → ending.files = w.files) ∧
          (ending.code = 0 →
            ∃ c, configOf w ⟨config, .task (.update id f.change)⟩ = .ok c ∧
              ((∀ ts, (Store.saveWith m.fails w.process w.files (.ofText c.storePath) ts).2 =
                  .ok ()) →
                Updated f id m.now (Store.load w.files (.ofText c.storePath))
                  (Store.load ending.files (.ofText c.storePath)))) := by
  refine ⟨f.request_words id, ?_⟩
  intro w m args config hargs
  cases hc : configOf w ⟨config, .task (.update id f.change)⟩ with
  | error e =>
    simp only [respond, hargs, hc]
    exact ⟨_, rfl, fun _ => rfl, fun h => by cases h⟩
  | ok c =>
    obtain ⟨output, hrespond⟩ := respond_update (m := m) hargs hc
    refine ⟨_, hrespond, ?_⟩
    let site : Site Cluster.Configured := ⟨.manual (.new m.now), w.files, w.clusters c⟩
    let options : Options := ⟨c.policy, c.historyLimit, .ofText c.storePath, w.process⟩
    obtain ⟨ho, hf, -, -⟩ := Service.start_frame site 0 options m
    have hs : Service.Mirrored (w.host c (.manual (.new m.now)) m).toService :=
      Service.mirrored_start site 0 options m
    have heffect := updateTask_effect m f id hs
    rw [show (w.host c (.manual (.new m.now)) m).options = options from ho,
      show (w.host c (.manual (.new m.now)) m).files = w.files from hf] at heffect
    rcases heffect with ⟨e, he, hfiles⟩ | ⟨t, ht, hupdated⟩
    · rw [he]
      exact ⟨fun _ => hfiles, fun h => by cases h⟩
    · rw [ht]
      exact ⟨fun h => absurd rfl h, fun _ => ⟨c, rfl, hupdated⟩⟩

namespace Sample

def task : Task where
  id := "a"
  name := "db"
  ns := "prod"
  sourceVolume := "db-pvc"
  snapshotClass := "fast"
  cron := "0 0 * * * *"
  enabled := true
  targets := ["east"]
  createdBy := "alice"
  createdAt := default
  updatedAt := default
  lastExecuted := none
  nextExecution := none

def other : Task :=
  { task with id := "b", name := "web", sourceVolume := "web-pvc", createdBy := "bob" }

def path : Path := .ofText "data/scheduled_tasks.json"

def surroundings : Surroundings where
  files := (Store.save 7 .blank path [task, other]).1
  environment _ := none
  exchange _ := none
  process := 8

def moment : Moment where
  now := (Instant.ofParts? 1714566999 0).getD default

def flags : UpdateFlags where
  cron := some "0 30 * * * *"
  clearTargets := true

theorem load_files : Store.load surroundings.files path = [task, other] := by
  have hsaved : (Store.save 7 .blank path [task, other]).2 = .ok () := rfl
  refine (Store.load_eq_of_saveWith (Prod.ext rfl hsaved)).trans ?_
  apply List.mergeSort_of_pairwise
  decide +kernel

theorem save_files (ts : List Task) :
    (Store.saveWith moment.fails surroundings.process surroundings.files path ts).2 = .ok () := rfl

theorem configOf_surroundings :
    configOf surroundings ⟨none, .task (.update "a" flags.change)⟩ = .ok {} := rfl

def host : Host Cluster.Configured Cluster.Endpoint :=
  surroundings.host {} (.manual (.new moment.now)) moment

theorem updateTask_isOk : ∃ t, (updateTask host moment "a" flags.change).2 = .ok t := by
  -- The file is long to read, so the service starts with its tasks instead.
  have hhost : host = { [task, other].foldl (Service.restore moment)
      (Service.blank ⟨.manual (.new moment.now), surroundings.files, surroundings.clusters {}⟩ 0
        ⟨.fallback, 20, path, surroundings.process⟩) with } := by
    rw [← load_files]
    rfl
  have hsome : (updateTask host moment "a" flags.change).2.toOption.isSome = true := by
    rw [hhost]
    decide +kernel
  cases h : (updateTask host moment "a" flags.change).2 with
  | ok t => exact ⟨t, rfl⟩
  | error e =>
    rw [h] at hsome
    cases hsome

end Sample

/-- The schedule of one task is changed and its targets are cleared, and another task stays. -/
theorem update_changes_named_sample :
    ∃ ending, respond Sample.surroundings Sample.moment (Sample.flags.words "a") = .finish ending ∧
      Updated Sample.flags "a" Sample.moment.now [Sample.task, Sample.other]
        (Store.load ending.files Sample.path) ∧
      (Store.load ending.files Sample.path).find? (·.id = "b") = some Sample.other := by
  obtain ⟨hrequest, hall⟩ := update_changes_named Sample.flags "a"
  obtain ⟨ending, hending, -, hupdated⟩ :=
    hall (w := Sample.surroundings) (m := Sample.moment) hrequest
  have hcode : ending.code = 0 := by
    obtain ⟨t, ht⟩ := Sample.updateTask_isOk
    obtain ⟨output, hrespond⟩ :=
      respond_update (m := Sample.moment) hrequest Sample.configOf_surroundings
    rw [hrespond, Action.finish.injEq] at hending
    rw [Sample.host] at ht
    rw [← hending, ht]
    rfl
  obtain ⟨c, hc, h⟩ := hupdated hcode
  cases Sample.configOf_surroundings.symm.trans hc
  have hafter := h Sample.save_files
  rw [show Path.ofText ({} : Config).storePath = Sample.path from rfl, Sample.load_files] at hafter
  exact ⟨ending, hending, hafter, (hafter.other "b" (by decide)).trans rfl⟩

end Cli
end Snapshots
