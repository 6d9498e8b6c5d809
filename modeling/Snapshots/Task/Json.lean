import Snapshots.Json.Decode
import Snapshots.Task.Basic

/-! # Tasks as JSON

Tasks and definitions as JSON values, and back. Two fields have older names that are read too,
and optional fields are left out when they are empty.
-/

namespace Snapshots

open Json Time

def Time.Instant.toJson (t : Instant) : Json :=
  .string t.toText

def Time.Instant.decode : Decoder Instant := fun r => do
  let s ← Decoder.string "an RFC 3339 formatted date and time string" r
  match Instant.ofText s with
  | .ok t => .ok t
  | .error e => .error (.mismatch (.other e.message))

namespace Definition

open Spec (text)

def toJson (d : Definition) : Json :=
  .object [("name", .string d.name), ("namespace", .string d.ns),
    ("sourceVolumeName", .string d.sourceVolume), ("snapshotClassName", .string d.snapshotClass),
    ("cronExpression", .string d.cron), ("enabled", (d.enabled.map Json.bool).getD .null),
    ("targetClusters", .strings d.targets)]

def rule : RecordRule where
  title := "struct TaskDefinition"
  fields := [.of "name" text, .of "namespace" text,
    (FieldRule.of "sourceVolumeName" text).orNamed "pvcName",
    (FieldRule.of "snapshotClassName" text).orNamed "volumeSnapshotClassName",
    .of "cronExpression" text, (FieldRule.of "enabled" (Decoder.optional Decoder.bool)).mayMiss,
    (FieldRule.of "targetClusters" (Decoder.list text)).mayMiss]

def decode : Decoder Definition := fun r => do
  let fs ← Reading.fields rule r
  return {
    name := ← fs.get 0 text
    ns := ← fs.get 1 text
    sourceVolume := ← fs.get 2 text
    snapshotClass := ← fs.get 3 text
    cron := ← fs.get 4 text
    enabled := ← fs.getD 5 (Decoder.optional Decoder.bool) none
    targets := ← fs.getD 6 (Decoder.list text) [] }

end Definition

namespace Task

open Spec (text)

def toJson (t : Task) : Json :=
  .record [("id", some (.string t.id)), ("name", some (.string t.name)),
    ("namespace", some (.string t.ns)), ("sourceVolumeName", some (.string t.sourceVolume)),
    ("snapshotClassName", some (.string t.snapshotClass)),
    ("cronExpression", some (.string t.cron)), ("enabled", some (.bool t.enabled)),
    ("targetClusters", if t.targets = [] then none else some (.strings t.targets)),
    ("createdBy", if t.createdBy = "" then none else some (.string t.createdBy)),
    ("createdAt", some t.createdAt.toJson), ("updatedAt", some t.updatedAt.toJson),
    ("lastExecuted", t.lastExecuted.map Instant.toJson),
    ("nextExecution", t.nextExecution.map Instant.toJson)]

def rule : RecordRule where
  title := "struct ScheduledTask"
  fields := [.of "id" text, .of "name" text, .of "namespace" text,
    (FieldRule.of "sourceVolumeName" text).orNamed "pvcName",
    (FieldRule.of "snapshotClassName" text).orNamed "volumeSnapshotClassName",
    .of "cronExpression" text, (FieldRule.of "enabled" Decoder.bool).mayMiss,
    (FieldRule.of "targetClusters" (Decoder.list text)).mayMiss,
    (FieldRule.of "createdBy" text).mayMiss, .of "createdAt" Instant.decode,
    .of "updatedAt" Instant.decode,
    (FieldRule.of "lastExecuted" (Decoder.optional Instant.decode)).mayMiss,
    (FieldRule.of "nextExecution" (Decoder.optional Instant.decode)).mayMiss]

def decode : Decoder Task := fun r => do
  let fs ← Reading.fields rule r
  return {
    id := ← fs.get 0 text
    name := ← fs.get 1 text
    ns := ← fs.get 2 text
    sourceVolume := ← fs.get 3 text
    snapshotClass := ← fs.get 4 text
    cron := ← fs.get 5 text
    enabled := ← fs.getD 6 Decoder.bool false
    targets := ← fs.getD 7 (Decoder.list text) []
    createdBy := ← fs.getD 8 text ""
    createdAt := ← fs.get 9 Instant.decode
    updatedAt := ← fs.get 10 Instant.decode
    lastExecuted := ← fs.getD 11 (Decoder.optional Instant.decode) none
    nextExecution := ← fs.getD 12 (Decoder.optional Instant.decode) none }

end Task

end Snapshots
