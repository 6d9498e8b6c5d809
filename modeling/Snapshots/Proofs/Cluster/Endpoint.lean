import Snapshots.Cluster.Endpoint
import Snapshots.Proofs.Url.Server
import Snapshots.Task.Basic

/-! # What requests address

Volumes are listed and a snapshot is created with one request each. The namespace is written into
its path as it is, so the request stays in the namespace exactly if this can stand as a segment of a
path. Main statement: `stays_in_namespace_iff`.
-/

namespace Snapshots.Cluster.Endpoint

open Json Rest

variable {α β : Type} {e : Endpoint} {u v : Url} {method : Method} {path : String}
  {body : Option Json} {r : Request}

/-! ### Calls -/

/-- A call sends one request, and its answer depends on the reply to that alone. With a token that
fits in no header nothing is sent. -/
def Sends (e : Endpoint) (call : Exchange → Except Error α) (r : Request) : Prop :=
  if e.token.all fitsHeader then
    ∃ answer : Reply → Except Error α, ∀ exchange, call exchange =
      match exchange r with
      | none => .error (.request e.cluster ("error sending request for url (" ++ r.url ++ ")"))
      | some reply => answer reply
  else ∀ exchange, call exchange = .error (.request e.cluster "builder error")

/-- The request for a URL. -/
def requestFor (e : Endpoint) (method : Method) (v : Url) (body : Option Json) : Request :=
  ⟨method, v.text, e.token.map ("Bearer " ++ ·), body⟩

theorem request_eq (hread : Url.ofText? (e.server ++ path) = some v) (hhost : v.hasHost = true)
    (hweb : Url.IsWeb v.scheme) (method : Method) (body : Option Json) :
    e.request method path body =
      if e.token.all fitsHeader then .ok (e.requestFor method v body)
      else .error "builder error" := by
  rw [request, hread]
  rcases hweb with hscheme | hscheme <;>
    cases htoken : e.token.all fitsHeader <;> simp [hhost, hscheme, requestFor]

theorem sends_ask (hread : Url.ofText? (e.server ++ path) = some v) (hhost : v.hasHost = true)
    (hweb : Url.IsWeb v.scheme) (method : Method) (body : Option Json) :
    e.Sends (e.ask · method path body) (e.requestFor method v body) := by
  have hrequest := request_eq hread hhost hweb method body
  rw [Sends]
  split
  case isTrue htoken =>
    rw [if_pos htoken] at hrequest
    refine ⟨e.bodyOf, fun exchange => ?_⟩
    cases hreply : exchange (e.requestFor method v body) with
    | none => simp only [ask, hrequest, hreply]
    | some reply => simp only [ask, hrequest, hreply]
  case isFalse htoken =>
    rw [if_neg htoken] at hrequest
    intro exchange
    simp only [ask, hrequest]

theorem Sends.bind {call : Exchange → Except Error α} (h : e.Sends call r)
    (f : α → Except Error β) : e.Sends (fun exchange => call exchange >>= f) r := by
  rw [Sends] at h ⊢
  split at h
  case isTrue htoken =>
    obtain ⟨answer, hanswer⟩ := h
    rw [if_pos htoken]
    refine ⟨fun reply => answer reply >>= f, fun exchange => ?_⟩
    rw [hanswer]
    cases exchange r with
    | none => rfl
    | some reply => rfl
  case isFalse htoken =>
    rw [if_neg htoken]
    intro exchange
    rw [h exchange]
    rfl

/-! ### Paths through a namespace -/

/-- A kind of objects in namespaces: the names in front of the namespace, and its own name behind.
They can stand as segments, and no path through them ends in a margin. -/
structure Kind where
  front : List String
  name : String
  segments : ∀ n ∈ name :: front, Url.IsSegment n.toList
  closed : name.toList.getLast?.any (!Url.isMargin ·) = true

namespace Kind

/-- The names of a path to the objects of a kind. -/
def names (k : Kind) (ns : String) : List String :=
  k.front ++ [ns, k.name]

def volumes : Kind where
  front := ["api", "v1", "namespaces"]
  name := "persistentvolumeclaims"
  segments := by decide +kernel
  closed := by decide +kernel

def snapshots : Kind where
  front := ["apis", "snapshot.storage.k8s.io", "v1", "namespaces"]
  name := "volumesnapshots"
  segments := by decide +kernel
  closed := by decide +kernel

theorem isSegment_names_iff (k : Kind) (ns : String) :
    (∀ name ∈ (k.names ns).map String.toList, Url.IsSegment name) ↔ Url.IsSegment ns.toList := by
  constructor
  · intro h
    exact h _ (List.mem_map_of_mem (by simp [names]))
  · intro h name hname
    obtain ⟨n, hn, rfl⟩ := List.mem_map.1 hname
    simp only [names, List.mem_append, List.mem_cons, List.not_mem_nil, or_false] at hn
    rcases hn with hn | rfl | rfl
    · exact k.segments n (List.mem_cons_of_mem _ hn)
    · exact h
    · exact k.segments _ List.mem_cons_self

def pathText (k : Kind) (ns : String) : List Char :=
  (Url.Path.segments ((k.names ns).map String.toList)).text

theorem pathText_eq_append (k : Kind) (ns : String) :
    ∃ front, k.pathText ns = front ++ k.name.toList :=
  ⟨(Url.Path.segments ((k.front ++ [ns]).map String.toList)).text ++ ['/'], by
    simp [pathText, names, Url.Path.text]⟩

theorem pathText_closed (k : Kind) (ns : String) :
    ∀ c ∈ (k.pathText ns).getLast?, Url.isMargin c = false := by
  obtain ⟨front, hfront⟩ := k.pathText_eq_append ns
  obtain ⟨last, hlast, hclosed⟩ := (Option.any_eq_true _ _).1 k.closed
  intro c hc
  rw [hfront, List.getLast?_append, hlast] at hc
  cases hc
  simpa using hclosed

end Kind

theorem ofList_text_cons (name : String) (names : List String) :
    String.ofList (Url.Path.segments ((name :: names).map String.toList)).text =
      "/" ++ (name ++ String.ofList (Url.Path.segments (names.map String.toList)).text) := by
  rw [← String.toList_inj]
  simp

theorem ofList_text_nil :
    String.ofList (Url.Path.segments (([] : List String).map String.toList)).text = "" := rfl

theorem volumesPath_eq (ns : String) :
    volumesPath ns = String.ofList (Kind.volumes.pathText ns) := by
  have hfront :
      "/api/v1/namespaces/" = "/" ++ "api" ++ "/" ++ "v1" ++ "/" ++ "namespaces" ++ "/" := by
    simp
  have hback : "/persistentvolumeclaims" = "/" ++ "persistentvolumeclaims" := by simp
  change "/api/v1/namespaces/" ++ ns ++ "/persistentvolumeclaims" = _
  rw [hfront, hback, Kind.pathText, Kind.names, Kind.volumes]
  simp only [List.cons_append, List.nil_append, ofList_text_cons, ofList_text_nil,
    String.append_empty, String.append_assoc]

theorem snapshotsPath_eq (ns : String) :
    snapshotsPath ns = String.ofList (Kind.snapshots.pathText ns) := by
  have hfront : "/apis/" = "/" ++ "apis" ++ "/" := by simp
  have hversion : Spec.apiVersion = "snapshot.storage.k8s.io" ++ "/" ++ "v1" := by
    simp [Spec.apiVersion]
  have hmiddle : "/namespaces/" = "/" ++ "namespaces" ++ "/" := by simp
  have hback : "/volumesnapshots" = "/" ++ "volumesnapshots" := by simp
  rw [snapshotsPath, hfront, hversion, hmiddle, hback, Kind.pathText, Kind.names, Kind.snapshots]
  simp only [List.cons_append, List.nil_append, ofList_text_cons, ofList_text_nil,
    String.append_empty, String.append_assoc]

/-- A request for the objects of a kind goes to the server, and it addresses them in the namespace
exactly if the namespace can stand as a segment. -/
theorem sends_iff (h : Url.IsServer e.server u) (k : Kind) (ns : String) (method : Method)
    (body : Option Json) :
    ∃ v, Url.ofText? (e.server ++ String.ofList (k.pathText ns)) = some v ∧
      Url.SameServer v u ∧
      e.Sends (e.ask · method (String.ofList (k.pathText ns)) body) (e.requestFor method v body) ∧
      (v.Addresses ((k.names ns).map String.toList) ↔ Url.IsSegment ns.toList) := by
  have hnames : (k.names ns).map String.toList ≠ [] := by simp [Kind.names]
  obtain ⟨v, hread, hsame, hiff⟩ := h.addresses_iff hnames (k.pathText_closed ns)
  have hhost : v.hasHost = true := by
    rw [Url.hasHost, hsame.2.1]
    exact h.hasHost
  have hweb : Url.IsWeb v.scheme := by
    rw [hsame.1]
    exact h.web
  rw [k.isSegment_names_iff] at hiff
  exact ⟨v, hread, hsame, sends_ask hread hhost hweb method body, hiff⟩

/-- Listing volumes and creating a snapshot send one request each, to the server of the cluster.
They address the volumes and the snapshots of the namespace exactly if the namespace can stand as a
segment of a path. -/
theorem stays_in_namespace_iff (h : Url.IsServer e.server u) (ns : String) (spec : Spec) :
    ∃ v w : Url,
      Url.ofText? (e.server ++ volumesPath ns) = some v ∧
      Url.ofText? (e.server ++ snapshotsPath ns) = some w ∧
      Url.SameServer v u ∧ Url.SameServer w u ∧
      e.Sends (e.volumes · ns) (e.requestFor .get v none) ∧
      e.Sends (e.create · ns spec) (e.requestFor .post w (some spec.manifest)) ∧
      (v.Addresses (["api", "v1", "namespaces", ns, "persistentvolumeclaims"].map String.toList) ↔
        Url.IsSegment ns.toList) ∧
      (w.Addresses (["apis", "snapshot.storage.k8s.io", "v1", "namespaces", ns,
        "volumesnapshots"].map String.toList) ↔ Url.IsSegment ns.toList) := by
  obtain ⟨v, hv, hvsame, hvsends, hviff⟩ := sends_iff h .volumes ns .get none
  obtain ⟨w, hw, hwsame, hwsends, hwiff⟩ := sends_iff h .snapshots ns .post (some spec.manifest)
  rw [← volumesPath_eq] at hv hvsends
  rw [← snapshotsPath_eq] at hw hwsends
  exact ⟨v, w, hv, hw, hvsame, hwsame, hvsends.bind _, hwsends.bind _, hviff, hwiff⟩

def localServer : Url where
  scheme := "http".toList
  host := some (.address4 0x7f000001)
  port := some 8080
  path := .segments [[]]
  query := none
  fragment := none

theorem isServer_local : Url.IsServer "http://127.0.0.1:8080" localServer where
  reads := by decide +kernel
  web := .inl rfl
  bare := by
    have hall : (Url.authority "http://127.0.0.1:8080").all
        (fun c => decide (c ∉ ['/', '\\', '?', '#'])) = true := by
      decide +kernel
    intro c hc
    exact of_decide_eq_true (List.all_eq_true.1 hall c hc)
  closed := by
    have hlast : "http://127.0.0.1:8080".toList.getLast? = some '0' := by decide +kernel
    rw [hlast]
    rintro c ⟨⟩
    rfl

def localEndpoint : Endpoint := ⟨"east", "http://127.0.0.1:8080", some "secret"⟩

theorem stays_in_namespace_prod :
    Url.IsServer localEndpoint.server localServer ∧
    ∃ v w : Url,
      Url.SameServer v localServer ∧ Url.SameServer w localServer ∧
      localEndpoint.Sends (localEndpoint.volumes · "prod")
        (localEndpoint.requestFor .get v none) ∧
      localEndpoint.Sends (localEndpoint.create · "prod" default)
        (localEndpoint.requestFor .post w (some (default : Spec).manifest)) ∧
      v.Addresses (["api", "v1", "namespaces", "prod", "persistentvolumeclaims"].map
        String.toList) ∧
      w.Addresses (["apis", "snapshot.storage.k8s.io", "v1", "namespaces", "prod",
        "volumesnapshots"].map String.toList) := by
  have hsegment : Url.IsSegment "prod".toList := by decide +kernel
  obtain ⟨v, w, -, -, hv, hw, hvsends, hwsends, hviff, hwiff⟩ :=
    stays_in_namespace_iff (e := localEndpoint) isServer_local "prod" default
  exact ⟨isServer_local, v, w, hv, hw, hvsends, hwsends, hviff.2 hsegment, hwiff.2 hsegment⟩

/-- A namespace with a slash is accepted, and what is asked for as its volumes is read as a part of
an object in another namespace. -/
theorem leaves_namespace :
    Definition.missingField? ⟨"db", "team/a", "db-pvc", "fast", "0 0 * * * *", none, []⟩ = none ∧
    ∃ v : Url, Url.ofText? (localEndpoint.server ++ volumesPath "team/a") = some v ∧
      localEndpoint.Sends (localEndpoint.volumes · "team/a")
        (localEndpoint.requestFor .get v none) ∧
      v.path = .segments (["api", "v1", "namespaces", "team", "a",
        "persistentvolumeclaims"].map String.toList) ∧
      ¬ v.Addresses (["api", "v1", "namespaces", "team/a", "persistentvolumeclaims"].map
        String.toList) := by
  obtain ⟨v, hv, -, hsends, hiff⟩ :=
    sends_iff (e := localEndpoint) isServer_local .volumes "team/a" .get none
  rw [← volumesPath_eq] at hv hsends
  refine ⟨by decide +kernel, v, hv, hsends.bind _, ?_, fun h => ?_⟩
  · have hpath : (Url.ofText? (localEndpoint.server ++ volumesPath "team/a")).map (·.path) =
        some (.segments (["api", "v1", "namespaces", "team", "a",
          "persistentvolumeclaims"].map String.toList)) := by
      decide +kernel
    rw [hv] at hpath
    exact Option.some.inj hpath
  · exact absurd (hiff.1 h) (by decide +kernel)

end Snapshots.Cluster.Endpoint
