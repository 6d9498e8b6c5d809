import Snapshots.Cluster.Basic
import Snapshots.Json.Printer
import Snapshots.Rest.Message
import Snapshots.Spec
import Snapshots.Url.Basic

/-! # Endpoints

The server of a cluster: the two requests that it is sent, and what its replies mean.
-/

namespace Snapshots.Cluster

open Json Rest

structure Endpoint where
  cluster : String
  /-- The URL of the server, without slashes at its end. -/
  server : String
  token : Option String
  deriving DecidableEq, Repr

namespace Endpoint

/-- The path of the volumes of a namespace. -/
def volumesPath (ns : String) : String :=
  "/api/v1/namespaces/" ++ ns ++ "/persistentvolumeclaims"

def snapshotsPath (ns : String) : String :=
  "/apis/" ++ Spec.apiVersion ++ "/namespaces/" ++ ns ++ "/volumesnapshots"

/-- Whether a text can be sent in a header. -/
def fitsHeader (s : String) : Bool :=
  s.toList.all fun c => (' ' ≤ c && c ≠ '\x7f') || c = '\t'

/-- A request to the server, or why there is none. -/
def request (e : Endpoint) (method : Method) (path : String) (body : Option Json) :
    Except String Request :=
  match Url.ofText? (e.server ++ path) with
  | none => .error "builder error"
  | some url =>
    let refused := "builder error for url (" ++ url.text ++ ")"
    if ¬ url.hasHost then .error refused
    else if ¬ e.token.all fitsHeader then .error "builder error"
    else if url.scheme ≠ "http".toList ∧ url.scheme ≠ "https".toList then .error refused
    else .ok ⟨method, url.text, e.token.map ("Bearer " ++ ·), body⟩

/-- What a server says about a failure: the message in its body, or the body. -/
def failureText (body : String) : String :=
  match Json.ofText body with
  | .ok v => ((v.get? "message").bind Json.string?).getD body
  | .error _ => body

/-- The body of a reply, if that stands for success. -/
def bodyOf (e : Endpoint) (reply : Reply) : Except Error String :=
  if isSuccess reply.status then .ok reply.body
  else if reply.status = 502 ∨ reply.status = 503 then .error (.unavailable e.cluster)
  else .error (.request e.cluster (statusText reply.status ++ ": " ++ failureText reply.body))

def ask (e : Endpoint) (exchange : Exchange) (method : Method) (path : String)
    (body : Option Json) : Except Error String :=
  match e.request method path body with
  | .error message => .error (.request e.cluster message)
  | .ok r =>
    match exchange r with
    | none => .error (.request e.cluster ("error sending request for url (" ++ r.url ++ ")"))
    | some reply => e.bodyOf reply

/-- What is known of an object: its name, its namespace, its identity and its phase. -/
structure Object where
  name : String
  ns : Option String
  uid : Option String
  phase : Option String
  deriving DecidableEq, Repr

namespace Object

open Volume (text)

/-- The part of an object that names it. -/
def metadataRule : RecordRule where
  title := "struct Metadata"
  fields := [.of "name" text, (FieldRule.of "namespace" (Decoder.optional text)).mayMiss,
    (FieldRule.of "uid" (Decoder.optional text)).mayMiss]

def decodeMetadata : Decoder (String × Option String × Option String) := fun r => do
  let fs ← Reading.fields metadataRule r
  return (← fs.get 0 text, ← fs.getD 1 (Decoder.optional text) none,
    ← fs.getD 2 (Decoder.optional text) none)

/-- The part of an object that tells its state. -/
def statusRule : RecordRule where
  title := "struct ClaimStatus"
  fields := [(FieldRule.of "phase" (Decoder.optional text)).mayMiss]

def decodeStatus : Decoder (Option String) := fun r => do
  let fs ← Reading.fields statusRule r
  fs.getD 0 (Decoder.optional text) none

def rule : RecordRule where
  title := "struct Object"
  fields := [.of "metadata" decodeMetadata,
    (FieldRule.of "status" (Decoder.optional decodeStatus)).mayMiss]

def decode : Decoder Object := fun r => do
  let fs ← Reading.fields rule r
  let (name, ns, uid) ← fs.get 0 decodeMetadata
  let status ← fs.getD 1 (Decoder.optional decodeStatus) none
  return ⟨name, ns, uid, status.join⟩

def listRule : RecordRule where
  title := "struct ObjectList"
  fields := [(FieldRule.of "items" (Decoder.list decode)).mayMiss]

def decodeList : Decoder (List Object) := fun r => do
  let fs ← Reading.fields listRule r
  fs.getD 0 (Decoder.list decode) []

end Object

def decodeBody {α : Type} (e : Endpoint) (decoder : Decoder α) (body : String) :
    Except Error α :=
  (Reading.decodeText decoder body).mapError fun _ =>
    .undecodable e.cluster "error decoding response body"

def volumes (e : Endpoint) (exchange : Exchange) (ns : String) : Except Error (List Volume) := do
  let body ← e.ask exchange .get (volumesPath ns) none
  let objects ← e.decodeBody Object.decodeList body
  return objects.map fun o => ⟨o.name, o.ns.getD ns, o.phase⟩

def create (e : Endpoint) (exchange : Exchange) (ns : String) (spec : Spec) :
    Except Error Created := do
  let body ← e.ask exchange .post (snapshotsPath ns) (some spec.manifest)
  let o ← e.decodeBody Object.decode body
  return ⟨o.name, o.ns.getD ns, o.uid⟩

end Endpoint

end Snapshots.Cluster
