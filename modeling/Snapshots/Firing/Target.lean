import Snapshots.Cluster.Fleet

/-! # Work on one cluster

A snapshot on one cluster takes three steps: find the server, see that the source volume is
there, and ask for the snapshot. The steps of different clusters may come in any order.
-/

namespace Snapshots.Firing

/-- Why a cluster has no snapshot of a firing. -/
inductive TargetError where
  | missingVolume (ns volume cluster : String)
  | refused (error : Cluster.Error)
  deriving DecidableEq, Repr

def TargetError.message : TargetError → String
  | missingVolume ns volume cluster =>
    "source volume " ++ ns ++ "/" ++ volume ++ " not found on cluster " ++ cluster
  | refused error => error.message

/-- How far the work on a cluster is. -/
inductive Progress (σ : Type) where
  | waiting
  | listing (server : σ)
  /-- The volume is there and the snapshot is asked for. -/
  | creating (server : σ)
  | done (result : Except TargetError Cluster.Created)

namespace Progress

variable {φ σ : Type} [Fleet φ σ]

def result? : Progress σ → Option (Except TargetError Cluster.Created)
  | done r => some r
  | _ => none

/-- What a listing leads to: the snapshot is asked for only if its volume is there. -/
def afterListing (cluster : String) (spec : Spec) (server : σ) :
    Except Cluster.Error (List Cluster.Volume) → Progress σ
  | .error e => done (.error (.refused e))
  | .ok volumes =>
    if volumes.any (·.name = spec.sourceVolume) then creating server
    else done (.error (.missingVolume spec.ns spec.sourceVolume cluster))

/-- One step of the work. A server that holds back its answer leaves the work where it is. -/
def step (cluster : String) (spec : Spec) (fleet : φ) : Progress σ → φ × Progress σ
  | waiting =>
    (fleet, match Fleet.resolve fleet cluster with
      | .ok server => listing server
      | .error e => done (.error (.refused e)))
  | listing server =>
    (fleet, match Fleet.volumes? fleet server spec.ns with
      | none => listing server
      | some answer => afterListing cluster spec server answer)
  | creating server =>
    let (fleet, answer) := Fleet.create fleet server spec.ns spec
    (fleet, done (answer.mapError .refused))
  | done r => (fleet, done r)

/-- The work carried on until it is done or held back. -/
def run (cluster : String) (spec : Spec) (fleet : φ) (p : Progress σ) : φ × Progress σ :=
  let (fleet, p) := p.step cluster spec fleet
  let (fleet, p) := p.step cluster spec fleet
  p.step cluster spec fleet

end Progress

end Snapshots.Firing
