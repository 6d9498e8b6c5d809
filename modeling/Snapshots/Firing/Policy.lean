import Snapshots.Cluster.Fleet
import Snapshots.Task.Basic

/-! # Targets of a firing

The clusters that a firing reaches, by the task, the fleet and the policy for tasks whose
clusters cannot be reached.
-/

namespace Snapshots.Firing

/-- What to do with a task for other clusters if only the current one can be reached. -/
inductive Policy where
  | fallback
  | reject
  deriving DecidableEq, Repr, Inhabited

/-- The members of a list without repetitions, in the order of their first occurrences. -/
def firsts : List String → List String
  | [] => []
  | a :: as => a :: (firsts as).filter (· ≠ a)

variable {φ σ : Type} [Fleet φ σ]

/-- The clusters that a firing of a task reaches, or nothing if it must not run. -/
def targets? (policy : Policy) (fleet : φ) (task : Task) : Option (List String) :=
  if task.targets = [] then some [Fleet.current fleet]
  else if Fleet.routes fleet then some (firsts task.targets)
  else match policy with
    | .fallback => some [Fleet.current fleet]
    | .reject => none

end Snapshots.Firing
