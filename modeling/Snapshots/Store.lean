import Snapshots.Files.Tree
import Snapshots.Json.Printer
import Snapshots.Task.Json

/-! # Task files

The tasks are kept in one file of indented JSON. A file that cannot be read holds no tasks. A
file is replaced by writing a sibling and moving it over the old one, so that at every moment
the path holds the old content or the new.
-/

namespace Snapshots

open Json

namespace Store

inductive SaveError where
  | createDirectory
  | write
  deriving DecidableEq, Repr

def kept (t : Task) : Task :=
  { t with nextExecution := none }

def render (ts : List Task) : String :=
  (Json.array ((Task.sorted (ts.map kept)).map Task.toJson)).toPretty

/-- The characters of a content, with a character that is not among them for every octet that
belongs to none. -/
def marked (cs : List (Option Char)) : Char × List Char :=
  let free (n : Nat) : Bool := !cs.contains (some (Char.ofNat (0xF0000 + n)))
  let mark := Char.ofNat (0xF0000 + ((List.range (cs.length + 1)).find? free).getD 0)
  (mark, cs.map (·.getD mark))

def reading : Content → Reading × Bool
  | .text s => Reading.ofText s
  | .octets bs =>
    let (mark, cs) := marked (Content.charsOf bs.length bs)
    Reading.ofChars (· = mark) cs

/-- The tasks that a content holds, none if it is not a list of tasks. -/
def parse (c : Content) : List Task :=
  let (r, more) := reading c
  match Decoder.optional (Decoder.list Task.decode) r with
  | .ok ts => if more then [] else (ts.getD []).map kept
  | .error _ => []

/-- The tasks in the file at a path. -/
def load (fs : Files) (p : Path) : List Task :=
  match fs.read p with
  | .ok c => parse c
  | .error _ => []

/-- The sibling that is written before it takes the file's place. -/
def sibling (process : Nat) (p : Path) : Path :=
  p.withFileName (p.fileName?.getD "tasks.json" ++ ".tmp." ++ toString process)

inductive Step where
  | ensureDirectory (p : Path)
  | create (p : Path)
  | write (p : Path) (c : Content)
  | sync (p : Path)
  | rename (source target : Path)
  | remove (p : Path)
  deriving DecidableEq, Repr

/-- The tree after a step, and whether the step was refused. -/
def Step.perform (fs : Files) : Step → Files × Except FileError Unit
  | .ensureDirectory p => fs.ensureDirectory p
  | .create p => fs.unlessRefused (fs.write p (.text ""))
  | .write p c => fs.unlessRefused (fs.write p c)
  | .sync _ => (fs, .ok ())
  | .rename source target => fs.unlessRefused (fs.rename source target)
  | .remove p => fs.unlessRefused (fs.remove p)

/-- The steps that replace the content of a file, once its directory is there. -/
def replaceSteps (process : Nat) (p : Path) (c : Content) : List Step :=
  let temp := sibling process p
  [.create temp, .write temp c, .sync temp, .rename temp p]

/-- The tree after some steps, up to the first that is refused; and whether all were taken. A
step may also fail for a reason that the tree does not show. -/
def performAll (fails : Step → Bool) : Files → List Step → Files × Bool
  | fs, [] => (fs, true)
  | fs, s :: steps =>
    if fails s then (fs, false)
    else match s.perform fs with
      | (fs, .ok ()) => performAll fails fs steps
      | (fs, .error _) => (fs, false)

/-- The tree after a step that may fail without harm. -/
def attempt (fails : Step → Bool) (fs : Files) (s : Step) : Files :=
  (performAll fails fs [s]).1

/-- The tree after saving, some of whose steps may fail. -/
def saveWith (fails : Step → Bool) (process : Nat) (fs : Files) (p : Path) (ts : List Task) :
    Files × Except SaveError Unit :=
  let parent := p.parent
  let (fs, ready) := if parent.parts = [] then (fs, true)
    else performAll fails fs [.ensureDirectory parent]
  if ¬ ready then (fs, .error .createDirectory)
  else
    match performAll fails fs (replaceSteps process p (.text (render ts))) with
    | (fs, true) => (fs, .ok ())
    | (fs, false) => (attempt fails fs (.remove (sibling process p)), .error .write)

def save (process : Nat) (fs : Files) (p : Path) (ts : List Task) :
    Files × Except SaveError Unit :=
  saveWith (fun _ => false) process fs p ts

end Store

end Snapshots
