import Snapshots.Cli.Command
import Snapshots.Cli.Report
import Snapshots.Service.Daemon

/-! # Running commands

What a process does for its arguments: it prints something and ends, or it goes on as a daemon.
No timer runs beside a command for tasks.
-/

namespace Snapshots.Cli

open Cluster Cron

def versionText : String := "snapcadence 0.1.0"

def usageText : String := linesText [
  "Usage: snapcadence [OPTIONS] <COMMAND>",
  "",
  "Commands:",
  "  serve     Start the daemon",
  "  task      Manage scheduled snapshot tasks in the task file",
  "  cron      Cron expression tools",
  "  clusters  Inspect configured clusters",
  "",
  "Options:",
  "      --config <CONFIG>  Path to the TOML config file",
  "  -h, --help             Print help",
  "  -V, --version          Print version"]

section

variable {φ σ : Type} [Fleet φ σ]

/-- The host after a task was changed. What the change leaves out stays as it is. -/
def updateTask (h : Host φ σ) (m : Moment) (id : String) (change : TaskChange) :
    Host φ σ × Except TaskError Task :=
  match h.toService.get id with
  | .error e => (h, .error e)
  | .ok t =>
    let (s, r) := h.toService.update m id (change.definition t)
    ({ h with toService := s }, r)

def runTask (h : Host φ σ) (m : Moment) (id : String) :
    Host φ σ × Except TaskError (Option Firing.Record) :=
  match h.run m id with
  | (h, .error e) => (h, .error e)
  | (h, .ok n) =>
    let (h, records) := h.settle m
    (h, .ok (records.lookup n))

def detailTask (s : Service φ) (id : String) : Except TaskError String := do
  let t ← s.get id
  let status ← s.status id
  return taskDetail t status.errorMessage

def runTaskCommand (user : Option String) (h : Host φ σ) (m : Moment) :
    TaskCommand → Host φ σ × Except Failure String
  | .list json => (h, .ok (taskList json h.toService.list))
  | .detail id => (h, (detailTask h.toService id).mapError .task)
  | .add d createdBy =>
    let (s, r) := h.toService.create m d ((createdBy.or user).getD "cli")
    ({ h with toService := s }, (r.mapError .task).map fun t =>
      linesText ["Task '" ++ t.id ++ "' added.", "Next run: " ++ timeText t.nextExecution])
  | .update id change =>
    let (h, r) := updateTask h m id change
    (h, (r.mapError .task).map fun t => linesText ["Task '" ++ t.id ++ "' updated."])
  | .toggle id =>
    let (s, r) := h.toService.toggle m id
    ({ h with toService := s }, (r.mapError .task).map fun t =>
      linesText ["Task '" ++ t.id ++ "' " ++ (if t.enabled then "enabled" else "disabled") ++ "."])
  | .remove id =>
    let (s, r) := h.toService.delete m id
    ({ h with toService := s }, (r.mapError .task).map fun _ =>
      linesText ["Task '" ++ id ++ "' removed."])
  | .run id =>
    let (h, r) := runTask h m id
    (h, (r.mapError .task).map fun record => record.elim "" firingText)
  | .preview hours =>
    (h, match h.toService.preview? m.now m.now hours with
      | some runs => .ok (previewText hours runs)
      | none => .error .beyondTime)

end

def checkCron (now : Time.Instant) (expression : String) (count : Nat) : Except Failure String :=
  match Schedule.parse now expression with
  | .ok s => .ok (scheduleText s now count)
  | .error e => .error (.cron expression e)

/-- What a process leaves when it ends. -/
structure Ending where
  files : Files
  code : Nat := 0
  output : String := ""
  errors : String := ""

def Ending.of (files : Files) : Except Failure String → Ending
  | .ok output => { files, output }
  | .error e => { files, code := e.code, errors := e.text }

inductive Action where
  | finish (ending : Ending)
  | serve (daemon : Host Configured Endpoint)

def userVariable : String := "USER"

def perform (w : Surroundings) (m : Moment) (c : Config) : Command → Action
  | .serve => .serve (w.daemon c m)
  | .task command =>
    let h := w.host c (.manual (.new m.now)) m
    let (h, r) := runTaskCommand (w.environment userVariable) h m command
    .finish (.of h.files r)
  | .checkCron expression count => .finish (.of w.files (checkCron m.now expression count))
  | .listClusters =>
    let clusters := w.clusters c
    .finish (.of w.files (.ok (clusterTable clusters.current clusters.list)))

def configVariable : String := "SNAPCADENCE_CONFIG"

def configOf (w : Surroundings) (i : Invocation) : Except ConfigError Config :=
  Config.resolve w.files i.config (w.environment configVariable)

def respond (w : Surroundings) (m : Moment) (args : List String) : Action :=
  match request args with
  | .help => .finish (.of w.files (.ok usageText))
  | .version => .finish (.of w.files (.ok (linesText [versionText])))
  | .misuse => .finish { files := w.files, code := 2, errors := usageText }
  | .run i =>
    match configOf w i with
    | .error e => .finish (.of w.files (.error (.config e)))
    | .ok c => perform w m c i.command

end Snapshots.Cli
