import Snapshots.Spec
import Snapshots.Text.Blank
import Snapshots.Time.Rfc3339

/-! # Tasks

A task is a recurring snapshot policy: what volume to snapshot, with which class, on which
schedule and on which clusters. A definition is the part of it that a user gives.
-/

namespace Snapshots

open Time

/-- What a user gives to create or update a task. -/
structure Definition where
  name : String
  ns : String
  sourceVolume : String
  snapshotClass : String
  cron : String
  /-- Whether the task is to be enabled; an update without it leaves this as it was. -/
  enabled : Option Bool := none
  targets : List String := []
  deriving DecidableEq, Repr, Inhabited

namespace Definition

/-- The fields that must not be blank, with their names. -/
def required (d : Definition) : List (String × String) :=
  [("name", d.name), ("namespace", d.ns), ("sourceVolumeName", d.sourceVolume),
    ("snapshotClassName", d.snapshotClass), ("cronExpression", d.cron)]

def missingField? (d : Definition) : Option String :=
  (d.required.find? fun f => Text.isBlankText f.2).map (·.1)

end Definition

/-- A recurring snapshot policy. -/
structure Task where
  id : String
  name : String
  ns : String
  sourceVolume : String
  snapshotClass : String
  cron : String
  enabled : Bool
  /-- The clusters to reach; none stands for the cluster that is current at fire time. -/
  targets : List String
  createdBy : String
  createdAt : Instant
  updatedAt : Instant
  lastExecuted : Option Instant
  /-- Filled in when a task is shown, and never kept. -/
  nextExecution : Option Instant
  deriving DecidableEq, Repr, Inhabited

namespace Task

/-- The identity of a task: its namespace, its name and the second of its creation. -/
def makeId (ns name : String) (createdAt : Instant) : String :=
  ns ++ "-" ++ name ++ "-" ++ toString createdAt.seconds

/-- A new task. It starts enabled, whatever the definition asks for. -/
def ofDefinition (d : Definition) (createdBy : String) (now : Instant) : Task where
  id := makeId d.ns d.name now
  name := d.name
  ns := d.ns
  sourceVolume := d.sourceVolume
  snapshotClass := d.snapshotClass
  cron := d.cron
  enabled := true
  targets := d.targets
  createdBy := createdBy
  createdAt := now
  updatedAt := now
  lastExecuted := none
  nextExecution := none

/-- The task with a new definition. Identity and origin stay, and so does whether it is enabled
if the definition leaves that open. -/
def apply (t : Task) (d : Definition) (now : Instant) : Task where
  id := t.id
  name := d.name
  ns := d.ns
  sourceVolume := d.sourceVolume
  snapshotClass := d.snapshotClass
  cron := d.cron
  enabled := d.enabled.getD t.enabled
  targets := d.targets
  createdBy := t.createdBy
  createdAt := t.createdAt
  updatedAt := now
  lastExecuted := t.lastExecuted
  nextExecution := none

/-- The definition that leaves a task as it is. -/
def definition (t : Task) : Definition where
  name := t.name
  ns := t.ns
  sourceVolume := t.sourceVolume
  snapshotClass := t.snapshotClass
  cron := t.cron
  enabled := none
  targets := t.targets

/-- The name of the snapshot of a firing. -/
def snapshotName (t : Task) (firedAt : Instant) : String :=
  t.name ++ "-" ++ toString firedAt.seconds

/-- Whether a task comes before another in lists: by creation, then by identity. -/
def listedBefore (a b : Task) : Bool :=
  a.createdAt < b.createdAt || (a.createdAt = b.createdAt && a.id ≤ b.id)

def sorted (ts : List Task) : List Task :=
  ts.mergeSort listedBefore

end Task

def isLabelEnd (c : Char) : Bool :=
  c.isAlphanum

def isLabelChar (c : Char) : Bool :=
  c.isAlphanum || c = '-' || c = '_' || c = '.'

/-- The nearest valid label value of a text: other characters become underscores, and at most
63 are kept, the ends being letters or digits. -/
def labelValue (s : String) : String :=
  let mapped := (s.toList.map fun c => if isLabelChar c then c else '_').take 63
  String.ofList (Text.trimWhile (fun c => !isLabelEnd c) mapped)

namespace Task

def appLabel : String := "snapcadence"

def annotationDomain : String := "snapcadence"

/-- The snapshot that a firing asks for. Labels and annotations name the task and its creator. -/
def spec (t : Task) (snapshotName : String) (firedAt : Instant) : Spec where
  name := snapshotName
  ns := t.ns
  sourceVolume := t.sourceVolume
  snapshotClass := t.snapshotClass
  labels := [("app", appLabel), ("created-by", labelValue t.createdBy),
    ("scheduled-task-id", labelValue t.id), ("scheduled-task-name", labelValue t.name)]
  annotations := [(annotationDomain ++ "/created-at", firedAt.toOffsetText),
    (annotationDomain ++ "/created-by", t.createdBy),
    (annotationDomain ++ "/scheduled-task", t.id)]

end Task

end Snapshots
