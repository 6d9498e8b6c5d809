import Snapshots.Firing.Policy
import Snapshots.Firing.Record
import Snapshots.Firing.Target

/-! # Firings under way

A firing works on each of its clusters apart from the others, with the definition that the task
had at the start. It ends when the work on every cluster is done.
-/

namespace Snapshots.Firing

open Time

/-- A firing of a task that is under way. -/
structure Flight (σ : Type) where
  task : Task
  firedAt : Instant
  /-- The clusters and how far the work on each is. -/
  units : List (String × Progress σ)

/-- What the work on a cluster comes to. -/
def Outcome.ofResult (cluster : String) : Except TargetError Cluster.Created → Outcome
  | .ok created => ⟨cluster, some created.name, none⟩
  | .error e => ⟨cluster, none, some e.message⟩

namespace Flight

variable {φ σ : Type} [Fleet φ σ]

def launch (policy : Policy) (fleet : φ) (task : Task) (firedAt : Instant) : Flight σ where
  task := task
  firedAt := firedAt
  units := ((targets? policy fleet task).getD []).map (·, .waiting)

def snapshotName (f : Flight σ) : String :=
  f.task.snapshotName f.firedAt

/-- The snapshot that every cluster is asked for. -/
def spec (f : Flight σ) : Spec :=
  f.task.spec f.snapshotName f.firedAt

/-- One step of the work on the cluster of an index. -/
def step (fleet : φ) (f : Flight σ) (i : Nat) : φ × Flight σ :=
  match f.units[i]? with
  | none => (fleet, f)
  | some (cluster, p) =>
    let (fleet, p) := p.step cluster f.spec fleet
    (fleet, { f with units := f.units.set i (cluster, p) })

/-- The work on each cluster carried on until it is done or held back. -/
def runUnits (spec : Spec) (fleet : φ) :
    List (String × Progress σ) → φ × List (String × Progress σ)
  | [] => (fleet, [])
  | (cluster, p) :: units =>
    let (fleet, p) := p.run cluster spec fleet
    let (fleet, units) := runUnits spec fleet units
    (fleet, (cluster, p) :: units)

/-- The firing carried on until its work is done or held back. -/
def run (fleet : φ) (f : Flight σ) : φ × Flight σ :=
  let (fleet, units) := runUnits f.spec fleet f.units
  (fleet, { f with units })

/-- The outcomes in the order of the clusters, once all work is done. -/
def outcomes? (f : Flight σ) : Option (List Outcome) :=
  f.units.mapM fun (cluster, p) => p.result?.map (.ofResult cluster)

/-- The record of the firing, once all work is done. -/
def record? (f : Flight σ) (finishedAt : Instant) : Option Record :=
  f.outcomes?.map (.ofOutcomes f.task.id f.snapshotName f.firedAt finishedAt)

omit [Fleet φ σ] in
/-- A record tells of the task and the time of its firing. -/
theorem of_record? {f : Flight σ} {finishedAt : Instant} {r : Record}
    (hr : f.record? finishedAt = some r) : r.taskId = f.task.id ∧ r.firedAt = f.firedAt := by
  obtain ⟨outcomes, -, rfl⟩ := Option.map_eq_some_iff.1 hr
  exact ⟨rfl, rfl⟩

end Flight

end Snapshots.Firing
