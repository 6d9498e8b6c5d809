import Snapshots.Certificate
import Snapshots.Cluster.Endpoint
import Snapshots.Cluster.Fleet
import Snapshots.Config.Basic
import Snapshots.Files.Tree
import Snapshots.Table
import Snapshots.Text.Blank

/-! # Configured clusters

The fleet of the clusters in the configuration. Of the entries of one name the first counts. An
entry whose server cannot be used stays in the list. Without any entry, the cluster is the one that
the process itself runs in.
-/

namespace Snapshots.Cluster

open Text

/-- What a name of the configuration leads to. -/
inductive Connection where
  | online (endpoint : Endpoint)
  | failed (reason : String)
  | disabled
  deriving DecidableEq, Repr

def Connection.status : Connection → Status
  | online _ => .online
  | failed _ => .error
  | disabled => .disabled

structure Member where
  entry : ClusterEntry
  connection : Connection

/-- The fleet of the configured clusters. -/
structure Configured where
  routes : Bool
  members : Table String Member
  current : String
  exchange : Rest.Exchange

/-- The cluster that the process runs in, as its surroundings tell. -/
structure InCluster where
  host : String
  port : String
  token : Option String := none
  authority : Option String := none
  deriving DecidableEq, Repr

namespace InCluster

def server (c : InCluster) : String :=
  let host := if c.host.toList.contains ':' then "[" ++ c.host ++ "]" else c.host
  "https://" ++ host ++ ":" ++ c.port

def hostVariable : String := "KUBERNETES_SERVICE_HOST"

def portVariable : String := "KUBERNETES_SERVICE_PORT"

def tokenFile : String := "/var/run/secrets/kubernetes.io/serviceaccount/token"

def authorityFile : String := "/var/run/secrets/kubernetes.io/serviceaccount/ca.crt"

end InCluster

def textIn? (fs : Files) (path : String) : Option String :=
  (fs.read (.ofText path)).toOption.bind Content.text?

def tokenIn? (fs : Files) (path : String) : Option String :=
  (textIn? fs path).map trim

/-- The cluster that the variables of a process and its files tell of. -/
def InCluster.detect? (environment : String → Option String) (fs : Files) : Option InCluster := do
  let host ← environment hostVariable
  some {
    host
    port := (environment portVariable).getD "443"
    token := tokenIn? fs tokenFile
    authority := textIn? fs authorityFile }

namespace Configured

/-- The connection of an entry. Its server has to be named, and a client has to be possible. -/
def connectIf (possible : ClusterEntry → Bool) (fs : Files) (e : ClusterEntry) : Connection :=
  if ¬ e.enabled then .disabled
  else if e.server = "" then .failed "no server URL configured"
  else if ¬ possible e then .failed "invalid certificate authority data"
  else .online {
    cluster := e.name
    server := String.ofList (dropEndWhile (· = '/') e.server.toList)
    token := e.token <|> e.tokenFile.bind (tokenIn? fs) }

/-- Whether a client for an entry is possible. Certificates have to be some. -/
def hasClient (e : ClusterEntry) : Bool :=
  e.authority.all Certificate.isIn

def ownName : String := "default"

/-- The entry of the cluster that the process runs in. -/
def ownEntry (c : Option InCluster) : ClusterEntry where
  name := ownName
  displayName := "In-cluster"
  description := "API server of the pod this process runs in"
  server := (c.map InCluster.server).getD ""
  token := c.bind (·.token)
  authority := c.bind (·.authority)

def ownMember (connect : ClusterEntry → Connection) (c : Option InCluster) : Member where
  entry := ownEntry c
  connection :=
    if c.isNone then .failed "not running inside a cluster" else connect (ownEntry c)

/-- The entries that count: the first of each name that is not empty. -/
def kept (entries : List ClusterEntry) : List ClusterEntry :=
  (entries.filter (·.name ≠ "")).foldl
    (fun es e => if es.any (·.name = e.name) then es else es ++ [e]) []

def membersOf (connect : ClusterEntry → Connection) (config : ClustersConfig)
    (own : Option InCluster) : List Member :=
  if config.entries = [] then [ownMember connect own]
  else (kept config.entries).map fun e => ⟨e, connect e⟩

/-- The cluster that is current at the start. -/
def firstCurrent (config : ClustersConfig) (members : List Member) : String :=
  config.current.getD
    (((members.find? (·.entry.enabled)).or members.head?).elim ownName (·.entry.name))

/-- The fleet of the entries with their connections. -/
def assemble (connect : ClusterEntry → Connection) (config : ClustersConfig)
    (own : Option InCluster) (exchange : Rest.Exchange) : Configured :=
  let members := membersOf connect config own
  { routes := config.routes
    members := .ofList (members.map fun m => (m.entry.name, m))
    current := firstCurrent config members
    exchange }

def build (fs : Files) (config : ClustersConfig) (own : Option InCluster)
    (exchange : Rest.Exchange) : Configured :=
  assemble (connectIf hasClient fs) config own exchange

/-- The server of a cluster, or why there is none to use. -/
def resolve (c : Configured) (name : String) : Except Error Endpoint :=
  match c.members.get? name with
  | none => .error (.notFound name)
  | some m =>
    match m.connection with
    | .online endpoint => .ok endpoint
    | .failed _ => .error (.unavailable name)
    | .disabled => .error (.disabled name)

/-- The fleet with another cluster current. Only one that is online can be. -/
def switch (c : Configured) (name : String) : Except Error Configured :=
  (c.resolve name).map fun _ => { c with current := name }

def info (name : String) (m : Member) : Info where
  name := name
  displayName := if m.entry.displayName = "" then name else m.entry.displayName
  description := m.entry.description
  enabled := m.entry.enabled
  status := m.connection.status

/-- The clusters in the order of their names. -/
def list (c : Configured) : List Info :=
  (c.members.entries.map fun (name, m) => info name m).mergeSort (·.name ≤ ·.name)

instance : Fleet Configured Endpoint where
  current := Configured.current
  routes := Configured.routes
  resolve := resolve
  volumes? c e ns := some (e.volumes c.exchange ns)
  create c e ns spec := (c, e.create c.exchange ns spec)

end Configured

end Snapshots.Cluster
