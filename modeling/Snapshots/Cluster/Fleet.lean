import Snapshots.Cluster.Basic
import Snapshots.Spec

/-! # Fleets

A fleet is a set of named clusters of which one is current. All that a firing does with clusters
goes through these operations.
-/

namespace Snapshots

/-- A type of fleets, and the type of the servers that they lead to. -/
class Fleet (φ : Type) (σ : outParam Type) where
  current : φ → String
  /-- Whether work can be sent to clusters other than the current one. -/
  routes : φ → Bool
  resolve : φ → String → Except Cluster.Error σ
  /-- The volumes in a namespace, or nothing as long as the server holds back its answer. -/
  volumes? : φ → σ → String → Option (Except Cluster.Error (List Cluster.Volume))
  create : φ → σ → String → Spec → φ × Except Cluster.Error Cluster.Created

end Snapshots
