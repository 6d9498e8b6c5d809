import Snapshots.Cluster.Configured
import Snapshots.Service.Host

/-! # Configured services

A service as a process sets it up from its configuration, and the daemon: a service whose timer
loop runs until it is interrupted.
-/

namespace Snapshots

open Cluster Timer

/-- What a process finds around it. -/
structure Surroundings where
  files : Files
  environment : String → Option String
  exchange : Rest.Exchange
  process : Nat

namespace Surroundings

def clusters (w : Surroundings) (c : Config) : Configured :=
  .build w.files c.clusters (InCluster.detect? w.environment w.files) w.exchange

/-- The configured service over a timer without entries. -/
def host (w : Surroundings) (c : Config) (engine : Engine Job) (m : Moment) :
    Host Configured Endpoint :=
  .start ⟨engine, w.files, w.clusters c⟩
    ⟨c.policy, c.historyLimit, .ofText c.storePath, w.process⟩ m

end Surroundings

namespace Host

variable {φ σ : Type}

def onLoop (f : Loop Job → Loop Job) (h : Host φ σ) : Host φ σ :=
  match h.engine with
  | .manual _ => h
  | .looping l => { h with engine := .looping (f l) }

def interrupt (h : Host φ σ) : Host φ σ :=
  h.onLoop .shutdown

def isRunning (h : Host φ σ) : Bool :=
  match h.engine with
  | .manual _ => false
  | .looping l => l.phase ≠ .idle && l.phase ≠ .stopped

end Host

def Surroundings.daemon (w : Surroundings) (c : Config) (m : Moment) :
    Host Configured Endpoint :=
  (w.host c (.looping .new) m).onLoop .start

end Snapshots
