import Snapshots.Json.Decode

/-! # Snapshot specifications

Everything that a cluster needs to create one volume snapshot, and the manifest that asks a
cluster for it.
-/

namespace Snapshots

open Json

/-- A snapshot to be created. Labels and annotations are in the order of their keys. -/
structure Spec where
  name : String
  ns : String
  sourceVolume : String
  snapshotClass : String
  labels : List (String × String)
  annotations : List (String × String)
  deriving DecidableEq, Repr, Inhabited

namespace Spec

def toJson (s : Spec) : Json :=
  .object [("name", .string s.name), ("namespace", .string s.ns),
    ("sourceVolumeName", .string s.sourceVolume), ("snapshotClassName", .string s.snapshotClass),
    ("labels", .stringMap s.labels), ("annotations", .stringMap s.annotations)]

def text : Decoder String := Decoder.string "a string"

def rule : RecordRule where
  title := "struct SnapshotSpec"
  fields := [.of "name" text, .of "namespace" text, .of "sourceVolumeName" text,
    .of "snapshotClassName" text, .of "labels" (Decoder.map text),
    .of "annotations" (Decoder.map text)]

def decode : Decoder Spec := fun r => do
  let fs ← Reading.fields rule r
  return {
    name := ← fs.get 0 text
    ns := ← fs.get 1 text
    sourceVolume := ← fs.get 2 text
    snapshotClass := ← fs.get 3 text
    labels := ← fs.get 4 (Decoder.map text)
    annotations := ← fs.get 5 (Decoder.map text) }

def apiVersion : String := "snapshot.storage.k8s.io/v1"

/-- The request for the snapshot, as a cluster reads it. -/
def manifest (s : Spec) : Json :=
  .object [("apiVersion", .string apiVersion), ("kind", .string "VolumeSnapshot"),
    ("metadata", .object [("name", .string s.name), ("namespace", .string s.ns),
      ("labels", .stringMap s.labels), ("annotations", .stringMap s.annotations)]),
    ("spec", .object [("volumeSnapshotClassName", .string s.snapshotClass),
      ("source", .object [("persistentVolumeClaimName", .string s.sourceVolume)])])]

end Spec

end Snapshots
