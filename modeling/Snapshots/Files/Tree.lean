import Snapshots.Files.Content
import Snapshots.Files.Path
import Snapshots.Table

/-! # File trees

Directories and files by their place, a list of names from the root. Every operation that
changes a tree may be refused, and then leaves it as it was; only of several directories to be made
some may be there then.
-/

namespace Snapshots

inductive Entry where
  | directory
  | file (content : Content)
  deriving DecidableEq, Repr

inductive FileError where
  | notFound
  | notDirectory
  | isDirectory
  | alreadyExists
  | badName
  deriving DecidableEq, Repr

/-- The names from the root to a place. -/
abbrev Place := List String

/-- A file tree and the directory that relative paths start from. -/
structure Files where
  entries : Table Place Entry
  home : Place
  deriving Inhabited

namespace Files

/-- What is at a place. The root is a directory. -/
def entry? (fs : Files) (p : Place) : Option Entry :=
  if p = [] then some .directory else fs.entries.get? p

def isDirectory (fs : Files) (p : Place) : Bool :=
  fs.entry? p = some .directory

def maxNameSize : Nat := 255

/-- The place that names lead to from a directory. All but the last have to exist. -/
def walk (fs : Files) : Place → List String → Except FileError Place
  | here, [] => .ok here
  | here, name :: rest =>
    if name = ".." then fs.walk here.dropLast rest
    else if maxNameSize < name.utf8ByteSize then .error .badName
    else
      let there := here ++ [name]
      match fs.entry? there with
      | some .directory => fs.walk there rest
      | some (.file _) => if rest = [] then .ok there else .error .notDirectory
      | none => if rest = [] then .ok there else .error .notFound

def place (fs : Files) (p : Path) : Except FileError Place :=
  if p.parts = [] ∧ ¬ p.absolute then .error .notFound
  else fs.walk (if p.absolute then [] else fs.home) p.parts

/-- The tree with an entry at a place. -/
def set (fs : Files) (p : Place) (e : Entry) : Files :=
  { fs with entries := fs.entries.insert p e }

/-- The content of the file at a path. -/
def read (fs : Files) (p : Path) : Except FileError Content := do
  let there ← fs.place p
  match fs.entry? there with
  | some (.file c) => if p.asDirectory then .error .notDirectory else .ok c
  | some .directory => .error .isDirectory
  | none => .error .notFound

def makeDirectory (fs : Files) (p : Path) : Except FileError Files := do
  let there ← fs.place p
  if (fs.entry? there).isSome then .error .alreadyExists else .ok (fs.set there .directory)

def namesDirectory (fs : Files) (p : Path) : Bool :=
  match fs.place p with
  | .ok there => fs.isDirectory there
  | .error _ => false

/-- The tree with a directory and all that are missing above it, given as so many names. If one of
them cannot be made, those above it stay. -/
def makeDirectories (fs : Files) (absolute : Bool) :
    Nat → List String → Files × Except FileError Unit
  | 0, _ => (fs, .ok ())
  | n + 1, names =>
    if names = [] then (fs, .ok ())
    else
      let p : Path := ⟨absolute, names, false⟩
      let unlessThere (fs : Files) (e : FileError) : Files × Except FileError Unit :=
        (fs, if fs.namesDirectory p then .ok () else .error e)
      match fs.makeDirectory p with
      | .ok fs => (fs, .ok ())
      | .error .notFound =>
        match fs.makeDirectories absolute n names.dropLast with
        | (fs, .error e) => (fs, .error e)
        | (fs, .ok ()) =>
          match fs.makeDirectory p with
          | .ok fs => (fs, .ok ())
          | .error e => unlessThere fs e
      | .error e => unlessThere fs e

/-- The tree with a directory and all that are missing above it. -/
def ensureDirectory (fs : Files) (p : Path) : Files × Except FileError Unit :=
  fs.makeDirectories p.absolute p.parts.length p.parts

/-- The tree after an operation, the same tree if the operation was refused. -/
def unlessRefused (fs : Files) : Except FileError Files → Files × Except FileError Unit
  | .ok fs => (fs, .ok ())
  | .error e => (fs, .error e)

/-- The tree with a file of some content, in place of any file that was there. -/
def write (fs : Files) (p : Path) (c : Content) : Except FileError Files := do
  let there ← fs.place p
  if p.asDirectory ∨ fs.isDirectory there then .error .isDirectory
  else .ok (fs.set there (.file c))

/-- The tree with a file moved in the place of another, or to a place that was free. -/
def rename (fs : Files) (source target : Path) : Except FileError Files := do
  let c ← fs.read source
  let here ← fs.place source
  let there ← fs.place target
  if target.asDirectory then .error .notDirectory
  if fs.isDirectory there then .error .isDirectory
  if here = there then .ok fs
  else .ok ({ fs with entries := fs.entries.erase here }.set there (.file c))

def remove (fs : Files) (p : Path) : Except FileError Files := do
  let there ← fs.place p
  match fs.entry? there with
  | some (.file _) => .ok { fs with entries := fs.entries.erase there }
  | some .directory => .error .isDirectory
  | none => .error .notFound

def list? (fs : Files) (p : Path) : Option (List String) :=
  let there := if p.parts = [] ∧ ¬ p.absolute then .ok fs.home else fs.place p
  match there with
  | .error _ => none
  | .ok there =>
    if fs.isDirectory there then
      some ((fs.entries.keys.filterMap fun q =>
        if q.dropLast = there then q.getLast? else none).mergeSort (· ≤ ·))
    else none

/-- The tree with a file of some content and the directories above it, as far as there can be
such. -/
def install (fs : Files) (p : Path) (c : Content) : Files :=
  let fs := (fs.ensureDirectory p.parent).1
  (fs.write p c).toOption.getD fs

/-- An empty directory at a place, to work in. -/
def startingAt (home : Place) : Files :=
  ⟨(List.range home.length).foldl (fun t n => t.insert (home.take (n + 1)) .directory) .empty,
    home⟩

def blank : Files :=
  startingAt ["home"]

end Files

end Snapshots
