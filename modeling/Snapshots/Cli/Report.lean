import Snapshots.Config.Load
import Snapshots.Service.Preview

/-! # Reports

What the program prints: tables, tasks and firings line by line, and failures with their causes.
-/

namespace Snapshots.Cli

open Cron Time

def linesText (lines : List String) : String :=
  String.join (lines.map (· ++ "\n"))

/-- A text with a mark after it as often as a width needs. -/
def fill (mark : Char) (width : Nat) (s : String) : String :=
  s ++ String.ofList (List.replicate (width - s.length) mark)

def tableRow (widths : List Nat) (cells : List String) : String :=
  " | ".intercalate (List.zipWith (fill ' ') (widths.dropLast ++ [0]) cells)

def tableRule (widths : List Nat) : String :=
  "-|-".intercalate (widths.map (fill '-' · ""))

def tableText (widths : List Nat) (head : List String) (rows : List (List String)) : String :=
  linesText (tableRow widths head :: tableRule widths :: rows.map (tableRow widths))

/-- A time, or a dash. -/
def timeText (t : Option Instant) : String :=
  t.elim "-" Instant.toColumn

def taskTable (ts : List Task) : String :=
  tableText [32, 15, 7, 19, 19] ["ID", "Cron", "Enabled", "Last run", "Next run"]
    (ts.map fun t =>
      [t.id, t.cron, toString t.enabled, timeText t.lastExecuted, timeText t.nextExecution])

def taskList (json : Bool) (ts : List Task) : String :=
  if json then linesText [(Json.array (ts.map Task.toJson)).toPretty]
  else if ts = [] then linesText ["No tasks found."]
  else taskTable ts

/-- A task line by line, with the failures of its latest firing. -/
def taskDetail (t : Task) (failures : Option String) : String :=
  linesText <| [
    "ID:         " ++ t.id,
    "Name:       " ++ t.name,
    "Volume:     " ++ t.ns ++ "/" ++ t.sourceVolume,
    "Class:      " ++ t.snapshotClass,
    "Cron:       " ++ t.cron,
    "Enabled:    " ++ toString t.enabled,
    "Targets:    " ++
      if t.targets = [] then "(current cluster)" else ", ".intercalate t.targets,
    "Created:    " ++ timeText (some t.createdAt) ++ " by " ++ t.createdBy,
    "Last run:   " ++ timeText t.lastExecuted,
    "Next run:   " ++ timeText t.nextExecution] ++
    failures.toList.map ("Last error: " ++ ·)

def outcomeText (o : Firing.Outcome) : String :=
  match o.snapshot, o.error with
  | _, some e => " - " ++ o.cluster ++ ": FAILED (" ++ e ++ ")"
  | some name, none => " - " ++ o.cluster ++ ": created " ++ name
  | none, none => " - " ++ o.cluster ++ ": no result"

def firingText (r : Firing.Record) : String :=
  linesText (("Snapshot " ++ r.snapshotName ++ ": " ++ r.status.text) ::
    r.outcomes.map outcomeText)

def previewText (hours : Nat) (runs : List UpcomingRun) : String :=
  if runs = [] then linesText ["No runs scheduled in next " ++ toString hours ++ " hours."]
  else linesText (("Upcoming runs (next " ++ toString hours ++ " hours):") ::
    runs.map fun r => timeText (some r.time) ++ " : " ++ r.taskName ++ " (" ++ r.taskId ++ ")")

def scheduleText (s : Schedule) (now : Instant) (count : Nat) : String :=
  linesText (("'" ++ s.expression ++ "' is valid. Next " ++ toString count ++
      " fire times (UTC):") ::
    (s.pattern.nextUpTo count now).map fun t => "  " ++ timeText (some t))

/-- Clusters as a table, the current one marked. -/
def clusterTable (current : String) (cs : List Cluster.Info) : String :=
  tableText [22, 24, 8, 24] ["  Name", "Display name", "Status", "Description"]
    (cs.map fun c =>
      [(if c.name = current then "* " else "  ") ++ c.name, c.displayName, c.status.text,
        c.description])

inductive Failure where
  | config (error : ConfigError)
  | task (error : TaskError)
  | cron (expression : String) (error : ScheduleError)
  /-- The hours of a preview lead beyond all times. -/
  | beyondTime
  deriving DecidableEq, Repr

namespace Failure

def message : Failure → String
  | config e => e.message
  | task e => e.message
  | cron expression _ => "invalid cron expression '" ++ expression ++ "'"
  | beyondTime => "the preview ends beyond all times"

def causes : Failure → List String
  | config _ | beyondTime => []
  | task (.notFound _) | task (.alreadyExists _) => []
  | task (.validation e) => [e.message]
  | task (.scheduling e) =>
    match e with
    | .rejected s => [e.message, s.message]
    | .unavailable _ => [e.message]
  | cron _ e => [e.message]

/-- A cause behind its number, if it has one, with all its lines indented. -/
def causeText (number : Option Nat) (cause : String) : String :=
  let (first, other) := match number with
    | some n => (String.ofList (List.replicate (5 - (toString n).length) ' ') ++ toString n ++ ": ",
        "       ")
    | none => ("    ", "    ")
  first ++ ("\n" ++ other).intercalate (cause.splitOn "\n")

/-- The failure with its causes. They are numbered if there are several. -/
def text (f : Failure) : String :=
  let causes := match f.causes with
    | [] => []
    | [cause] => [causeText none cause]
    | causes => causes.mapIdx fun i cause => causeText (some i) cause
  let head := linesText ["Error: " ++ f.message]
  if causes = [] then head else head ++ linesText ("" :: "Caused by:" :: causes)

def code : Failure → Nat
  | beyondTime => 101
  | _ => 1

end Failure

end Snapshots.Cli
