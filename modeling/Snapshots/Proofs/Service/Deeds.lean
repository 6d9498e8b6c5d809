import Snapshots.Cluster.Memory
import Snapshots.Proofs.Timer.Registry
import Snapshots.Service.Run
import Snapshots.Service.Tasks

/-! # Deeds and runs

A run starts a service on a task file and goes on with deeds of callers, of the timer and of firings
under way, in any order. Every step lists what the timer answered to its registrations. Each
operation on tasks comes with one statement of all that it can do.
-/

namespace Snapshots

open Timer Time

/-- What a timer answers to a registration. -/
abbrev Answer := Except RegisterError Handle

def handedOut (answers : List Answer) : List Handle :=
  answers.filterMap Except.toOption

@[simp] theorem handedOut_nil : handedOut [] = [] := rfl

@[simp] theorem handedOut_append (as bs : List Answer) :
    handedOut (as ++ bs) = handedOut as ++ handedOut bs :=
  List.filterMap_append

@[simp] theorem handedOut_ok (h : Handle) : handedOut [.ok h] = [h] := rfl

@[simp] theorem handedOut_error (e : RegisterError) : handedOut [.error e] = [] := rfl

/-- No field that a task needs is blank. -/
structure Definition.Complete (d : Definition) : Prop where
  name : Text.isBlankText d.name = false
  ns : Text.isBlankText d.ns = false
  sourceVolume : Text.isBlankText d.sourceVolume = false
  snapshotClass : Text.isBlankText d.snapshotClass = false
  cron : Text.isBlankText d.cron = false

theorem Definition.missingField?_eq_none_iff {d : Definition} :
    d.missingField? = none ↔ d.Complete := by
  simp only [missingField?, required, Option.map_eq_none_iff, List.find?_eq_none,
    List.forall_mem_cons, Bool.not_eq_true, List.not_mem_nil, false_implies, implies_true, and_true]
  constructor
  · rintro ⟨hname, hns, hvolume, hclass, hcron⟩
    exact ⟨hname, hns, hvolume, hclass, hcron⟩
  · rintro ⟨hname, hns, hvolume, hclass, hcron⟩
    exact ⟨hname, hns, hvolume, hclass, hcron⟩

/-- What is done to a service by its callers, by the timer and by firings under way. -/
inductive Deed (φ : Type) where
  | create (d : Definition) (createdBy : String)
  | update (id : String) (d : Definition)
  | toggle (id : String)
  | delete (id : String)
  | run (id : String)
  /-- The timer starts a job, of an entry that there is or was. -/
  | fire (job : Job)
  /-- Firings under way change the clusters and the history. -/
  | work (fleet : φ) (history : Firing.History)

namespace Service

variable {φ σ : Type} [Fleet φ σ] {s s' : Service φ} {m : Moment}

/-- The service after a deed. -/
def perform (s : Service φ) (m : Moment) : Deed φ → Service φ
  | .create d createdBy => (s.create m d createdBy).1
  | .update id d => (s.update m id d).1
  | .toggle id => (s.toggle m id).1
  | .delete id => (s.delete m id).1
  | .run id => (s.run m id).1
  | .fire job => (s.runJob m job).1
  | .work fleet history => { s with fleet, history }

def createAnswers (s : Service φ) (m : Moment) (d : Definition) (createdBy : String) :
    List Answer :=
  match s.validate m d with
  | .error _ => []
  | .ok () =>
    let t := Task.ofDefinition d createdBy m.now
    if s.tasks.contains t.id then [] else [(s.register m t).2]

/-- What the timer answers to the registrations of an update: of the new definition and, if that
is refused, of the old one. -/
def updateAnswers (s : Service φ) (m : Moment) (id : String) (d : Definition) : List Answer :=
  match s.validate m d, s.tasks.get? id with
  | .ok (), some previous =>
    let t := previous.apply d m.now
    if t.enabled then
      match s.register m t with
      | (_, .ok h) => [.ok h]
      | (s, .error e) =>
        .error e :: if previous.enabled then [(s.register m previous).2] else []
    else []
  | _, _ => []

def toggleAnswers (s : Service φ) (m : Moment) (id : String) : List Answer :=
  match s.tasks.get? id with
  | none => []
  | some previous =>
    let t := { previous with enabled := !previous.enabled, updatedAt := m.now }
    if t.enabled then [(s.register m t).2] else []

/-- What the timer answers to the registrations of a deed, in their order. -/
def answers (s : Service φ) (m : Moment) : Deed φ → List Answer
  | .create d createdBy => s.createAnswers m d createdBy
  | .update id d => s.updateAnswers m id d
  | .toggle id => s.toggleAnswers m id
  | _ => []

def restoreAnswers (s : Service φ) (m : Moment) (t : Task) : List Answer :=
  if s.tasks.contains t.id then [] else if t.enabled then [(s.register m t).2] else []

def blank (site : Site φ) (owner : Nat) (options : Options) : Service φ :=
  { site with
    owner, options
    tasks := .empty
    handles := .empty
    history := .new options.historyLimit }

/-- The service with its timer after a turn. -/
def turn (s : Service φ) (t : Turn) : Service φ :=
  { s with engine := s.engine.turn t }

/-- What a run can come to: the tasks of the file that are still to be restored, the answers of
the timer so far, and the service. The timer may turn at any time, and each step has a moment of
its own. -/
inductive Run (site : Site φ) (owner : Nat) (options : Options) :
    List Task → List Answer → Service φ → Prop where

  | load : Run site owner options (Store.load site.files options.path) []
      (blank site owner options)

  | restore {t : Task} {ts : List Task} {as : List Answer} {s : Service φ} (m : Moment) :
      Run site owner options (t :: ts) as s →
      Run site owner options ts (as ++ s.restoreAnswers m t) (restore m s t)

  | turn {ts : List Task} {as : List Answer} {s : Service φ} (t : Turn) :
      Run site owner options ts as s → Run site owner options ts as (s.turn t)

  | perform {as : List Answer} {s : Service φ} (m : Moment) (d : Deed φ) :
      Run site owner options [] as s →
      Run site owner options [] (as ++ s.answers m d) (s.perform m d)

theorem Run.restoreAll {site : Site φ} {owner : Nat} {options : Options} (m : Moment)
    (ts : List Task) :
    ∀ {as : List Answer} {s : Service φ}, Run site owner options ts as s →
      ∃ as', Run site owner options [] as' (ts.foldl (Service.restore m) s) := by
  induction ts with
  | nil => exact fun r => ⟨_, r⟩
  | cons t ts ih => exact fun r => ih (r.restore m)

theorem run_start (site : Site φ) (owner : Nat) (options : Options) (m : Moment) :
    ∃ as, Run site owner options [] as (start site owner options m) :=
  Run.load.restoreAll m _

/-! ### What an operation can do -/

theorem register_eq {t : Task} {r : Answer} (hr : s.register m t = (s', r)) :
    s.handles.register s.engine m.now t.id t.cron ⟨s.owner, t⟩ = (s'.handles, s'.engine, r) ∧
      s' = { s with handles := s'.handles, engine := s'.engine } := by
  cases hr
  exact ⟨rfl, rfl⟩

theorem validate_eq_ok_iff {d : Definition} : s.validate m d = .ok () ↔ d.Complete ∧
    (∃ schedule, Cron.Schedule.parse m.now d.cron = .ok schedule) ∧
      ¬ (s.options.policy = .reject ∧ d.targets ≠ [] ∧ Fleet.routes s.fleet = false) := by
  rw [← Definition.missingField?_eq_none_iff]
  unfold validate
  cases d.missingField? with
  | some name => simp
  | none =>
    cases Cron.Schedule.parse m.now d.cron with
    | error e => simp
    | ok schedule =>
      simp only [true_and, Except.ok.injEq, exists_eq']
      split
      · rename_i h
        exact iff_of_false nofun fun hn => hn h
      · rename_i h
        exact iff_of_true rfl h

theorem create_cases (s : Service φ) (m : Moment) (d : Definition) (createdBy : String) :
    (∃ e, (∀ f, e ≠ .scheduling f) ∧ s.create m d createdBy = (s, .error e) ∧
      s.createAnswers m d createdBy = []) ∨
    (s.validate m d = .ok () ∧ s.tasks.get? (Task.ofDefinition d createdBy m.now).id = none ∧
      ((∃ s' e, s.register m (.ofDefinition d createdBy m.now) = (s', .error e) ∧
          s.create m d createdBy = (s', .error (.scheduling e)) ∧
          s.createAnswers m d createdBy = [.error e]) ∨
        ∃ s' h, s.register m (.ofDefinition d createdBy m.now) = (s', .ok h) ∧
          s.create m d createdBy = s'.commit m (.ofDefinition d createdBy m.now) ∧
          s.createAnswers m d createdBy = [.ok h])) := by
  simp only [create, createAnswers]
  cases hv : s.validate m d with
  | error e => exact .inl ⟨.validation e, by simp, rfl, rfl⟩
  | ok _ =>
    simp only
    split
    · exact .inl ⟨.alreadyExists _, by simp, rfl, rfl⟩
    · rename_i hc
      refine .inr ⟨trivial, by simpa [Table.contains] using hc, ?_⟩
      rcases hr : s.register m (.ofDefinition d createdBy m.now) with ⟨s', e | h⟩
      · exact .inl ⟨s', e, rfl, rfl, rfl⟩
      · exact .inr ⟨s', h, rfl, rfl, rfl⟩

/-- An update is refused outright, or is refused by the timer, or puts the task with its new
definition, registered anew if it is enabled and without an entry otherwise. -/
theorem update_cases (s : Service φ) (m : Moment) (id : String) (d : Definition) :
    (∃ e, (∀ f, e ≠ .scheduling f) ∧ s.update m id d = (s, .error e) ∧
      s.updateAnswers m id d = []) ∨
    (∃ previous, s.validate m d = .ok () ∧ s.tasks.get? id = some previous ∧
      (((previous.apply d m.now).enabled = true ∧
        ((∃ s' e, s.register m (previous.apply d m.now) = (s', .error e) ∧
            s.update m id d = (s'.reinstate m previous, .error (.scheduling e)) ∧
            s.updateAnswers m id d =
              .error e :: if previous.enabled then [(s'.register m previous).2] else []) ∨
          ∃ s' h, s.register m (previous.apply d m.now) = (s', .ok h) ∧
            s.update m id d = s'.commit m (previous.apply d m.now) ∧
            s.updateAnswers m id d = [.ok h])) ∨
        ((previous.apply d m.now).enabled = false ∧
          s.update m id d = (s.unregister id).commit m (previous.apply d m.now) ∧
          s.updateAnswers m id d = []))) := by
  simp only [update, updateAnswers]
  cases hv : s.validate m d with
  | error e => exact .inl ⟨.validation e, by simp, rfl, rfl⟩
  | ok _ =>
    simp only
    cases hg : s.tasks.get? id with
    | none => exact .inl ⟨.notFound id, by simp, rfl, rfl⟩
    | some previous =>
      refine .inr ⟨previous, trivial, rfl, ?_⟩
      simp only
      cases he : (previous.apply d m.now).enabled with
      | false => exact .inr ⟨rfl, rfl, rfl⟩
      | true =>
        refine .inl ⟨rfl, ?_⟩
        rcases hr : s.register m (previous.apply d m.now) with ⟨s', e | h⟩
        · exact .inl ⟨s', e, rfl, rfl, rfl⟩
        · exact .inr ⟨s', h, rfl, rfl, rfl⟩

theorem mem_updateAnswers {id : String} {d : Definition} {previous : Task}
    (hv : s.validate m d = .ok ()) (ht : s.tasks.get? id = some previous)
    (he : (previous.apply d m.now).enabled = true) :
    (s.register m (previous.apply d m.now)).2 ∈ s.updateAnswers m id d := by
  simp only [updateAnswers, hv, ht, he, if_true]
  rcases s.register m (previous.apply d m.now) with ⟨s₁, e | h⟩
  · exact List.mem_cons_self
  · exact List.mem_cons_self

def toggled (m : Moment) (t : Task) : Task :=
  { t with enabled := !t.enabled, updatedAt := m.now }

theorem toggle_cases (s : Service φ) (m : Moment) (id : String) :
    (s.tasks.get? id = none ∧ s.toggle m id = (s, .error (.notFound id)) ∧
      s.toggleAnswers m id = []) ∨
    (∃ previous, s.tasks.get? id = some previous ∧
      ((previous.enabled = false ∧
        ((∃ s' e, s.register m (toggled m previous) = (s', .error e) ∧
            s.toggle m id = (s', .error (.scheduling e)) ∧
            s.toggleAnswers m id = [.error e]) ∨
          ∃ s' h, s.register m (toggled m previous) = (s', .ok h) ∧
            s.toggle m id = s'.commit m (toggled m previous) ∧
            s.toggleAnswers m id = [.ok h])) ∨
        (previous.enabled = true ∧
          s.toggle m id = (s.unregister id).commit m (toggled m previous) ∧
          s.toggleAnswers m id = []))) := by
  cases hg : s.tasks.get? id with
  | none => exact .inl ⟨rfl, by simp [toggle, hg], by simp [toggleAnswers, hg]⟩
  | some previous =>
    refine .inr ⟨previous, rfl, ?_⟩
    simp only [toggle, toggleAnswers, hg, toggled]
    by_cases he : previous.enabled = true
    · have hoff : ¬ (!previous.enabled) = true := by simp [he]
      rw [if_neg hoff, if_neg hoff]
      exact .inr ⟨he, rfl, rfl⟩
    · have hon : (!previous.enabled) = true := by simpa using he
      rw [if_pos hon, if_pos hon]
      refine .inl ⟨by simpa using he, ?_⟩
      rcases hr : s.register m { previous with enabled := !previous.enabled, updatedAt := m.now }
        with ⟨s', e | h⟩
      · exact .inl ⟨s', e, rfl, rfl, rfl⟩
      · exact .inr ⟨s', h, rfl, rfl, rfl⟩

end Service

/-! ### A run to try statements on -/

namespace Sample

def moment : Moment where
  now := (Instant.ofParts? 1714566896 0).getD default

def site : Site Cluster.Memory where
  engine := .manual (.new moment.now)
  files := .blank
  fleet := .new "east" false

def options : Options where
  policy := .fallback
  historyLimit := 20
  path := ⟨false, ["tasks.json"], false⟩
  process := 7

def definition : Definition where
  name := "db"
  ns := "prod"
  sourceVolume := "db-pvc"
  snapshotClass := "fast"
  cron := "0 0 * * * *"

def slower : Definition :=
  { definition with snapshotClass := "slow" }

def id : String := "prod-db-1714566896"

def created : Service Cluster.Memory :=
  (Service.blank site 0 options).perform moment (.create definition "alice")

def refusing (failures : Nat) : Service Cluster.Memory :=
  created.turn (.setFaults false failures)

def updated (failures : Nat) : Service Cluster.Memory :=
  (refusing failures).perform moment (.update id slower)

theorem update_eq {failures : Nat} {r : Except TaskError Task}
    (h : ((refusing failures).update moment id slower).2 = r) :
    (refusing failures).update moment id slower = (updated failures, r) := by
  rw [← h, updated, Service.perform]

theorem run_created : Service.Run site 0 options [] [.ok ⟨1⟩] created := by
  have hl : Store.load site.files options.path = [] := by decide +kernel
  have ha : (Service.blank site 0 options).answers moment (.create definition "alice") =
      [.ok ⟨1⟩] := by decide +kernel
  have r : Service.Run site 0 options _ [] (Service.blank site 0 options) := .load
  rw [hl] at r
  have r' := r.perform moment (.create definition "alice")
  rw [ha] at r'
  exact r'

theorem run_refusing (failures : Nat) :
    Service.Run site 0 options [] [.ok ⟨1⟩] (refusing failures) :=
  run_created.turn (.setFaults false failures)

end Sample

end Snapshots
