import Snapshots.Firing.Policy
import Snapshots.Json.Decode

/-! # Configuration

The sections of the configuration with their defaults. Every part of it may be left out.
-/

namespace Snapshots

open Firing Json

namespace Firing.Policy

def text : Policy → String
  | .fallback => "fallback"
  | .reject => "reject"

def ofText? (s : String) : Option Policy :=
  [Policy.fallback, .reject].find? (·.text = s)

end Firing.Policy

/-- A cluster as it is configured. -/
structure ClusterEntry where
  name : String := ""
  displayName : String := ""
  description : String := ""
  enabled : Bool := true
  server : String := ""
  token : Option String := none
  tokenFile : Option String := none
  authority : Option String := none
  insecure : Bool := false
  deriving DecidableEq, Repr, Inhabited

/-- The clusters as they are configured. -/
structure ClustersConfig where
  /-- The cluster that is current at the start. -/
  current : Option String := none
  /-- Whether work can be sent to clusters other than the current one. -/
  routes : Bool := true
  timeoutSeconds : Nat := 30
  entries : List ClusterEntry := []
  deriving DecidableEq, Repr, Inhabited

structure Config where
  storePath : String := "data/scheduled_tasks.json"
  policy : Policy := .fallback
  historyLimit : Nat := 20
  clusters : ClustersConfig := {}
  logLevel : String := "info"
  logJson : Bool := false
  deriving DecidableEq, Repr, Inhabited

def orNull (f : α → Json) : Option α → Json
  | some a => f a
  | none => .null

def ClusterEntry.toJson (e : ClusterEntry) : Json :=
  .object [("name", .string e.name), ("display_name", .string e.displayName),
    ("description", .string e.description), ("enabled", .bool e.enabled),
    ("server", .string e.server), ("token", orNull .string e.token),
    ("token_file", orNull .string e.tokenFile),
    ("certificate_authority_data", orNull .string e.authority),
    ("insecure_skip_tls_verify", .bool e.insecure)]

def ClustersConfig.toJson (c : ClustersConfig) : Json :=
  .object [("default_cluster", orNull .string c.current), ("multi_cluster", .bool c.routes),
    ("timeout_secs", .nat c.timeoutSeconds),
    ("entries", .array (c.entries.map ClusterEntry.toJson))]

def Config.toJson (c : Config) : Json :=
  .object [("store", .object [("path", .string c.storePath)]),
    ("scheduler", .object [("multi_cluster_policy", .string c.policy.text),
      ("history_limit", .nat c.historyLimit)]),
    ("clusters", c.clusters.toJson),
    ("logging", .object [("level", .string c.logLevel), ("json", .bool c.logJson)])]

namespace ClusterEntry

def text : Decoder String := Decoder.string "a string"

def path : Decoder String := Decoder.string "path string"

def rule : RecordRule where
  title := "struct ClusterEntry"
  fields := [FieldRule.of "name" text, .of "display_name" text, .of "description" text,
    .of "enabled" Decoder.bool, .of "server" text, .of "token" (Decoder.optional text),
    .of "token_file" (Decoder.optional path),
    .of "certificate_authority_data" (Decoder.optional text),
    .of "insecure_skip_tls_verify" Decoder.bool].map FieldRule.mayMiss

def decode : Decoder ClusterEntry := fun r => do
  let fs ← Reading.fields rule r
  let d : ClusterEntry := {}
  return {
    name := ← fs.getD 0 text d.name
    displayName := ← fs.getD 1 text d.displayName
    description := ← fs.getD 2 text d.description
    enabled := ← fs.getD 3 Decoder.bool d.enabled
    server := ← fs.getD 4 text d.server
    token := ← fs.getD 5 (Decoder.optional text) d.token
    tokenFile := ← fs.getD 6 (Decoder.optional path) d.tokenFile
    authority := ← fs.getD 7 (Decoder.optional text) d.authority
    insecure := ← fs.getD 8 Decoder.bool d.insecure }

end ClusterEntry

namespace ClustersConfig

open ClusterEntry (text)

def rule : RecordRule where
  title := "struct ClustersConfig"
  fields := [FieldRule.of "default_cluster" (Decoder.optional text),
    .of "multi_cluster" Decoder.bool, .of "timeout_secs" (Decoder.word "u64"),
    .of "entries" (Decoder.list ClusterEntry.decode)].map FieldRule.mayMiss

def decode : Decoder ClustersConfig := fun r => do
  let fs ← Reading.fields rule r
  let d : ClustersConfig := {}
  return {
    current := ← fs.getD 0 (Decoder.optional text) d.current
    routes := ← fs.getD 1 Decoder.bool d.routes
    timeoutSeconds := ← fs.getD 2 (Decoder.word "u64") d.timeoutSeconds
    entries := ← fs.getD 3 (Decoder.list ClusterEntry.decode) d.entries }

end ClustersConfig

end Snapshots
