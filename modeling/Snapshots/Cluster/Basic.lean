import Snapshots.Json.Decode

/-! # Clusters

What clusters answer: volumes, snapshots that they accepted, and errors.
-/

namespace Snapshots

open Json

namespace Cluster

/-- Why a cluster did not do what it was asked for. -/
inductive Error where
  | notFound (name : String)
  | disabled (name : String)
  | unavailable (name : String)
  | request (name message : String)
  | undecodable (name message : String)
  deriving DecidableEq, Repr

def Error.message : Error → String
  | notFound name => "cluster " ++ name ++ " not found"
  | disabled name => "cluster " ++ name ++ " is disabled"
  | unavailable name => "cluster " ++ name ++ " is not available"
  | request name message => "request to cluster " ++ name ++ " failed: " ++ message
  | undecodable name message => "unexpected response from cluster " ++ name ++ ": " ++ message

/-- A volume that snapshots can be taken of. -/
structure Volume where
  name : String
  ns : String
  phase : Option String := none
  deriving DecidableEq, Repr, Inhabited

namespace Volume

def toJson (v : Volume) : Json :=
  .record [("name", some (.string v.name)), ("namespace", some (.string v.ns)),
    ("phase", v.phase.map .string)]

def text : Decoder String := Decoder.string "a string"

def rule : RecordRule where
  title := "struct VolumeInfo"
  fields := [.of "name" text, .of "namespace" text,
    (FieldRule.of "phase" (Decoder.optional text)).mayMiss]

def decode : Decoder Volume := fun r => do
  let fs ← Reading.fields rule r
  return {
    name := ← fs.get 0 text
    ns := ← fs.get 1 text
    phase := ← fs.getD 2 (Decoder.optional text) none }

end Volume

/-- A snapshot that a cluster accepted. -/
structure Created where
  name : String
  ns : String
  uid : Option String := none
  deriving DecidableEq, Repr, Inhabited

namespace Created

open Volume (text)

def toJson (c : Created) : Json :=
  .record [("name", some (.string c.name)), ("namespace", some (.string c.ns)),
    ("uid", c.uid.map .string)]

def rule : RecordRule where
  title := "struct CreatedSnapshot"
  fields := [.of "name" text, .of "namespace" text,
    (FieldRule.of "uid" (Decoder.optional text)).mayMiss]

def decode : Decoder Created := fun r => do
  let fs ← Reading.fields rule r
  return {
    name := ← fs.get 0 text
    ns := ← fs.get 1 text
    uid := ← fs.getD 2 (Decoder.optional text) none }

end Created

inductive Status where
  | online
  | error
  | disabled
  deriving DecidableEq, Repr

namespace Status

def text : Status → String
  | online => "online"
  | error => "error"
  | disabled => "disabled"

def all : List Status := [online, error, disabled]

def decode : Decoder Status := fun r => do
  let word ← Decoder.variant (all.map text) r
  return (all.find? (·.text = word)).getD error

end Status

structure Info where
  name : String
  displayName : String
  description : String
  enabled : Bool
  status : Status
  deriving DecidableEq, Repr

def Info.toJson (i : Info) : Json :=
  .object [("name", .string i.name), ("displayName", .string i.displayName),
    ("description", .string i.description), ("enabled", .bool i.enabled),
    ("status", .string i.status.text)]

end Cluster

end Snapshots
