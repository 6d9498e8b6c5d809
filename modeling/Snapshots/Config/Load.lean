import Snapshots.Config.Basic
import Snapshots.Files.Tree
import Snapshots.Toml.Document

/-! # Loading a configuration

A configuration is read from a TOML file. A section may be given as a table or as an array of its
values, and other keys are left alone. The file is named by the caller, by the environment or by
the system; only a file that the caller names has to be there and in order.
-/

namespace Snapshots

open Firing

namespace Toml

/-- The values of a section under these keys, in their order. -/
def section? (keys : List String) : Toml → Option (List (Option Toml))
  | .table _ members => some (keys.map fun k => members.lookup k)
  | .array items | .tables items =>
    some ((items.take keys.length).map some ++ List.replicate (keys.length - items.length) none)
  | .dateTime _ => some (keys.map fun _ => none)
  | _ => none

def string? : Toml → Option String
  | .string s => some s
  | _ => none

def boolean? : Toml → Option Bool
  | .boolean b => some b
  | _ => none

def natural? : Toml → Option Nat
  | .integer (.ofNat n) => some n
  | _ => none

def list? (item : Toml → Option α) : Toml → Option (List α)
  | .array items | .tables items => items.mapM item
  | _ => none

def isEmpty : Toml → Bool
  | .array [] | .tables [] | .table _ [] => true
  | _ => false

/-- A policy, written as a word or as a table of the word with nothing in it. -/
def policy? : Toml → Option Policy
  | .string s => Policy.ofText? s
  | .table _ [(s, v)] => if v.isEmpty then Policy.ofText? s else none
  | _ => none

/-- The value at an index of a section, or its default. -/
def get (vs : List (Option Toml)) (i : Nat) (read : Toml → Option α) (default : α) : Option α :=
  match vs[i]? with
  | some (some v) => read v
  | _ => some default

def clusterEntry? (t : Toml) : Option ClusterEntry := do
  let vs ← t.section? ["name", "display_name", "description", "enabled", "server", "token",
    "token_file", "certificate_authority_data", "insecure_skip_tls_verify"]
  let d : ClusterEntry := {}
  let given (t : Toml) : Option (Option String) := t.string?.map some
  return {
    name := ← get vs 0 string? d.name
    displayName := ← get vs 1 string? d.displayName
    description := ← get vs 2 string? d.description
    enabled := ← get vs 3 boolean? d.enabled
    server := ← get vs 4 string? d.server
    token := ← get vs 5 given d.token
    tokenFile := ← get vs 6 given d.tokenFile
    authority := ← get vs 7 given d.authority
    insecure := ← get vs 8 boolean? d.insecure }

def clusters? (t : Toml) : Option ClustersConfig := do
  let vs ← t.section? ["default_cluster", "multi_cluster", "timeout_secs", "entries"]
  let d : ClustersConfig := {}
  return {
    current := ← get vs 0 (fun t => t.string?.map some) d.current
    routes := ← get vs 1 boolean? d.routes
    timeoutSeconds := ← get vs 2 natural? d.timeoutSeconds
    entries := ← get vs 3 (list? clusterEntry?) d.entries }

def config? (t : Toml) : Option Config := do
  let vs ← t.section? ["store", "scheduler", "clusters", "logging"]
  let d : Config := {}
  let part (i : Nat) (keys : List String) : Option (List (Option Toml)) :=
    get vs i (section? keys) []
  let store ← part 0 ["path"]
  let scheduler ← part 1 ["multi_cluster_policy", "history_limit"]
  let logging ← part 3 ["level", "json"]
  return {
    storePath := ← get store 0 string? d.storePath
    policy := ← get scheduler 0 policy? d.policy
    historyLimit := ← get scheduler 1 natural? d.historyLimit
    clusters := ← get vs 2 clusters? d.clusters
    logLevel := ← get logging 0 string? d.logLevel
    logJson := ← get logging 1 boolean? d.logJson }

end Toml

inductive ConfigError where
  | read (name : String)
  | parse (name : String)
  deriving DecidableEq, Repr

def ConfigError.message : ConfigError → String
  | read name => "failed to read config file: " ++ name
  | parse name => "failed to parse config file: " ++ name

namespace Config

def ofText? (s : String) : Option Config :=
  (Toml.ofText? s).bind Toml.config?

def load (fs : Files) (name : String) : Except ConfigError Config :=
  match fs.read (.ofText name) with
  | .ok (.text s) =>
    match ofText? s with
    | some c => .ok c
    | none => .error (.parse name)
  | _ => .error (.read name)

def systemFile : String := "/etc/snapcadence/snapcadence.toml"

/-- The configuration of a process: of the file that its caller names, or else of the first file
that loads of the one that the environment names and the one of the system, or else the
defaults. -/
def resolve (fs : Files) (explicit environment : Option String) : Except ConfigError Config :=
  match explicit with
  | some name => load fs name
  | none =>
    let files := environment.toList ++ [systemFile]
    .ok ((files.findSome? fun name => (load fs name).toOption).getD {})

end Config

end Snapshots
