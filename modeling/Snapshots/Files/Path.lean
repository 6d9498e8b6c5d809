/-! # Paths

A path is a list of names below a directory. Empty names and dots are left out, and two dots
stand for the directory above.
-/

namespace Snapshots

/-- A path as a program is given it. -/
structure Path where
  absolute : Bool
  parts : List String
  /-- The path ends in a slash, so that it can only name a directory. -/
  asDirectory : Bool
  deriving DecidableEq, Repr, Inhabited

namespace Path

/-- The names in a text, between slashes. -/
def names (s : String) : List String :=
  ((s.toList.splitOn '/').map String.ofList).filter fun name => name ≠ "" ∧ name ≠ "."

def ofText (s : String) : Path where
  absolute := "/".toList.isPrefixOf s.toList
  parts := names s
  asDirectory := "/".toList.isSuffixOf s.toList || "/.".toList.isSuffixOf s.toList

def text (p : Path) : String :=
  (if p.absolute then "/" else "") ++ "/".intercalate p.parts

/-- The last name, unless that is two dots. -/
def fileName? (p : Path) : Option String :=
  p.parts.getLast?.filter (· ≠ "..")

/-- The directory that holds what the path names. -/
def parent (p : Path) : Path :=
  ⟨p.absolute, p.parts.dropLast, false⟩

/-- The path with its last name replaced, or with a name added if it ends in two dots. -/
def withFileName (p : Path) (name : String) : Path :=
  let base := if p.fileName?.isSome then p.parts.dropLast else p.parts
  ⟨p.absolute, base ++ [name], false⟩

end Path

end Snapshots
