import Snapshots.Task.Json

/-! # Firing records

What one firing of a task did on each cluster, and what that makes of the firing as a whole.
-/

namespace Snapshots.Firing

open Time

/-- What became of a firing on one cluster: a snapshot or an error. -/
structure Outcome where
  cluster : String
  snapshot : Option String := none
  error : Option String := none
  deriving DecidableEq, Repr, Inhabited

inductive Status where
  /-- Every cluster has a snapshot. -/
  | success
  /-- Some clusters failed, and not all. -/
  | partialFailure
  /-- Every cluster failed. -/
  | failed
  /-- No cluster was reached. -/
  | aborted
  deriving DecidableEq, Repr, Inhabited

def Status.text : Status → String
  | success => "Success"
  | partialFailure => "PartialFailure"
  | failed => "Failed"
  | aborted => "Aborted"

def Status.classify (outcomes : List Outcome) : Status :=
  let failures := outcomes.countP (·.error.isSome)
  if outcomes = [] then aborted
  else if failures = 0 then success
  else if failures = outcomes.length then failed
  else partialFailure

/-- A firing that has ended. -/
structure Record where
  taskId : String
  snapshotName : String
  firedAt : Instant
  finishedAt : Instant
  status : Status
  outcomes : List Outcome
  deriving DecidableEq, Repr, Inhabited

namespace Record

/-- The record of a firing with these outcomes. -/
def ofOutcomes (taskId snapshotName : String) (firedAt finishedAt : Instant)
    (outcomes : List Outcome) : Record :=
  ⟨taskId, snapshotName, firedAt, finishedAt, .classify outcomes, outcomes⟩

def failedClusters (r : Record) : List String :=
  (r.outcomes.filter (·.error.isSome)).map (·.cluster)

/-- All failures in one line, if there are any. -/
def errorSummary? (r : Record) : Option String :=
  let failures := r.outcomes.filterMap fun o =>
    o.error.map fun e => "cluster " ++ o.cluster ++ ": " ++ e
  if failures = [] then none else some ("; ".intercalate failures)

end Record

def Outcome.toJson (o : Outcome) : Json :=
  .record [("cluster", some (.string o.cluster)), ("snapshot", o.snapshot.map .string),
    ("error", o.error.map .string)]

def Record.toJson (r : Record) : Json :=
  .object [("taskId", .string r.taskId), ("snapshotName", .string r.snapshotName),
    ("firedAt", r.firedAt.toJson), ("finishedAt", r.finishedAt.toJson),
    ("status", .string r.status.text), ("outcomes", .array (r.outcomes.map Outcome.toJson))]

end Snapshots.Firing
