import Snapshots.Cli.Run
import Std.Time.DateTime.Timestamp

/-! # The program

The process around the commands: it reads the clocks, the variables and the files that a command
may look at, prints what the command prints, and writes the task file if that has changed.
Requests to clusters are not sent from here, so they stay unanswered.
-/

namespace Snapshots.Cli

open Cluster Time

def readClocks : IO Moment := do
  let nanos := (← Std.Time.Timestamp.now).toNanosecondsSinceUnixEpoch.val
  let monotonic ← IO.monoNanosNow
  match Instant.ofParts? (nanos / nanosPerSecond) (nanos % nanosPerSecond).toNat with
  | some now => return { now, monotonic }
  | none => throw (IO.userError "the clock is out of range")

/-- The tree with a file of the disk, if that can be read. -/
def fetch (fs : Files) (name : String) : IO Files := do
  try
    let octets ← IO.FS.readBinFile name
    return fs.install (.ofText name) (.ofOctets octets.toList)
  catch _ => return fs

def octetsOf : Content → ByteArray
  | .text s => s.toUTF8
  | .octets bs => ⟨bs.toArray⟩

/-- Writes a file of the tree to the disk, by way of a file beside it. -/
def deliver (fs : Files) (p : Path) : IO Unit := do
  match fs.read p with
  | .error _ => return
  | .ok c =>
    try
      if p.parent.parts ≠ [] then IO.FS.createDirAll p.parent.text
      let beside := (p.withFileName ((p.fileName?.getD "") ++ ".new")).text
      IO.FS.writeBinFile beside (octetsOf c)
      IO.FS.rename beside p.text
    catch _ => return

/-- Writes a file to the disk if it has changed. -/
def deliverChange (before after : Files) (p : Path) : IO Unit := do
  if (before.read p).toOption ≠ (after.read p).toOption then deliver after p

def variableNames : List String :=
  [configVariable, userVariable, InCluster.hostVariable, InCluster.portVariable]

def readVariables : IO (String → Option String) := do
  let values ← variableNames.mapM fun name => return (name, ← IO.getEnv name)
  return fun name => (values.lookup name).join

/-- The files that a configuration may come from. -/
def configFiles (environment : String → Option String) (i : Invocation) : List String :=
  i.config.toList ++ (environment configVariable).toList ++ [Config.systemFile]

def dataFiles (c : Config) : List String :=
  [c.storePath, InCluster.tokenFile, InCluster.authorityFile] ++
    c.clusters.entries.filterMap (·.tokenFile)

/-- What the process finds around it, as far as its arguments lead to it. -/
def look (args : List String) : IO (Surroundings × Option Path) := do
  let home := Path.ofText (← IO.currentDir).toString
  let environment ← readVariables
  let w : Surroundings := ⟨.startingAt home.parts, environment, fun _ => none, 1⟩
  match request args with
  | .run i =>
    let w := { w with files := ← (configFiles environment i).foldlM fetch w.files }
    match configOf w i with
    | .ok c =>
      return ({ w with files := ← (dataFiles c).foldlM fetch w.files }, some (.ofText c.storePath))
    | .error _ => return (w, none)
  | _ => return (w, none)

/-- How long the daemon may sleep, in milliseconds. -/
def pause (h : Host Configured Endpoint) (monotonic : Nat) : UInt32 :=
  match h.engine with
  | .looping { phase := .parked _ _ deadline, .. } =>
    UInt32.ofNat (min 3600000 ((deadline - monotonic) / 1000000 + 1))
  | _ => 0

partial def keepServing (h : Host Configured Endpoint) (store : Path) : IO Unit := do
  let m ← readClocks
  let (after, _) := h.settle m
  deliverChange h.files after.files store
  if after.isRunning then
    IO.sleep (pause after m.monotonic)
    keepServing after store

def runProcess (args : List String) : IO UInt32 := do
  let (w, store) ← look args
  match respond w (← readClocks) args with
  | .finish ending =>
    store.forM (deliverChange w.files ending.files)
    IO.print ending.output
    IO.eprint ending.errors
    return UInt32.ofNat ending.code
  | .serve daemon =>
    store.forM (keepServing daemon)
    return 0

end Snapshots.Cli

def main (args : List String) : IO UInt32 :=
  Snapshots.Cli.runProcess args
