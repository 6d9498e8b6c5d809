import Snapshots.Cluster.Fleet
import Snapshots.Table

/-! # Clusters in memory

Servers that keep volumes and snapshots in memory, and fleets of them. A server can be made to
fail its requests and to hold back its listings. Work that has reached a server stays with it,
even if its name is given to another.
-/

namespace Snapshots.Cluster

/-- A server in memory. -/
structure Server where
  name : String
  /-- Volumes with their namespaces, each once. -/
  volumes : List (String × String) := []
  /-- Snapshots in the order of their creation. -/
  snapshots : List Spec := []
  /-- The message with which every request fails. -/
  failure : Option String := none
  /-- Whether listings are held back. -/
  held : Bool := false
  deriving DecidableEq, Repr, Inhabited

namespace Server

def addVolume (s : Server) (ns volume : String) : Server :=
  { s with volumes := s.volumes.insert (ns, volume) }

def removeVolume (s : Server) (ns volume : String) : Server :=
  { s with volumes := s.volumes.erase (ns, volume) }

/-- The answer to a listing once it is not held back. -/
def answer (s : Server) (ns : String) : Except Error (List Volume) :=
  match s.failure with
  | some message => .error (.request s.name message)
  | none =>
    let names := (s.volumes.filter (·.1 = ns)).map (·.2)
    .ok ((names.mergeSort (· ≤ ·)).map fun name => ⟨name, ns, some "Bound"⟩)

/-- The volumes of a namespace in the order of their names, or nothing while held back. -/
def volumes? (s : Server) (ns : String) : Option (Except Error (List Volume)) :=
  if s.held then none else some (s.answer ns)

def hasSnapshot (s : Server) (ns name : String) : Bool :=
  s.snapshots.any fun spec => spec.ns = ns ∧ spec.name = name

def create (s : Server) (ns : String) (spec : Spec) : Server × Except Error Created :=
  match s.failure with
  | some message => (s, .error (.request s.name message))
  | none =>
    if s.hasSnapshot ns spec.name then
      (s, .error (.request s.name
        ("volumesnapshot " ++ ns ++ "/" ++ spec.name ++ " already exists")))
    else
      ({ s with snapshots := s.snapshots ++ [spec] }, .ok ⟨spec.name, ns, none⟩)

end Server

/-- What a name of a fleet in memory leads to. -/
inductive Slot where
  | online (number : Nat)
  | disabled
  | unavailable
  deriving DecidableEq, Repr

/-- A fleet of servers in memory. -/
structure Memory where
  current : String
  routes : Bool
  /-- All servers that ever were, by their numbers. -/
  servers : List Server
  slots : Table String Slot

namespace Memory

def new (current : String) (routes : Bool) : Memory :=
  ⟨current, routes, [], .empty⟩

/-- The fleet with a server more, in place of any other of its name. -/
def add (m : Memory) (s : Server) : Memory :=
  { m with
    servers := m.servers ++ [s]
    slots := m.slots.insert s.name (.online m.servers.length) }

def disable (m : Memory) (name : String) : Memory :=
  { m with slots := m.slots.insert name .disabled }

/-- The fleet with a cluster that cannot be reached. -/
def markUnavailable (m : Memory) (name : String) : Memory :=
  { m with slots := m.slots.insert name .unavailable }

def modify (m : Memory) (number : Nat) (f : Server → Server) : Memory :=
  { m with servers := m.servers.modify number f }

def resolve (m : Memory) (name : String) : Except Error Nat :=
  match m.slots.get? name with
  | some (.online number) => .ok number
  | some .disabled => .error (.disabled name)
  | some .unavailable => .error (.unavailable name)
  | none => .error (.notFound name)

def volumes? (m : Memory) (number : Nat) (ns : String) : Option (Except Error (List Volume)) :=
  (m.servers[number]?.getD default).volumes? ns

def create (m : Memory) (number : Nat) (ns : String) (spec : Spec) :
    Memory × Except Error Created :=
  let (s, answer) := (m.servers[number]?.getD default).create ns spec
  (m.modify number fun _ => s, answer)

instance : Fleet Memory Nat where
  current := Memory.current
  routes := Memory.routes
  resolve := resolve
  volumes? := volumes?
  create := create

end Memory

end Snapshots.Cluster
