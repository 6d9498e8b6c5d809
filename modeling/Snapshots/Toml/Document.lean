import Snapshots.Toml.Scalar

/-! # TOML documents

A document is read line by line: headers open tables, and other lines give a key of the open
table a value. Keys and values have a greatest depth.
-/

namespace Snapshots.Toml

/-- A path of keys has fewer parts than this, and a value less depth. -/
def depthLimit : Nat := 80

def dropGap (cs : List Char) : List Char :=
  cs.dropWhile isGap

def isKeyChar (c : Char) : Bool :=
  c.isAlphanum || c = '_' || c = '-'

def keyPart : List Char → Option (String × List Char)
  | '"' :: rest => (basicString (rest.length + 1) rest).map fun (cs, rest) =>
    (String.ofList cs, rest)
  | '\'' :: rest => (literalString rest).map fun (cs, rest) => (String.ofList cs, rest)
  | cs =>
    let part := cs.takeWhile isKeyChar
    if part = [] then none else some (String.ofList part, cs.drop part.length)

def keyParts : Nat → List Char → Option (List String × List Char)
  | 0, _ => none
  | fuel + 1, cs => do
    let (part, rest) ← keyPart (dropGap cs)
    match dropGap rest with
    | '.' :: rest =>
      let (parts, rest) ← keyParts fuel rest
      some (part :: parts, rest)
    | rest => some ([part], rest)

/-- A key: the path to it and its last part. -/
def key (cs : List Char) : Option ((List String × String) × List Char) := do
  let (parts, rest) ← keyParts (cs.length + 1) cs
  if depthLimit ≤ parts.length then none
  some ((parts.dropLast, parts.getLastD ""), rest)

def dropSpace : Nat → List Char → Option (List Char)
  | 0, cs => some cs
  | fuel + 1, cs =>
    match dropGap cs with
    | '#' :: rest => do
      let rest ← lineEnd? (rest.dropWhile isPlain)
      dropSpace fuel rest
    | rest => match lineEnd? rest with
      | some rest => dropSpace fuel rest
      | none => some rest

/-- Items with commas between them, up to a closing mark. -/
def separated {α : Type} (item : List Char → Option (α × List Char)) (close : Char) :
    Nat → List Char → Option (List α × List Char)
  | 0, _ => none
  | fuel + 1, cs => do
    let (a, rest) ← item cs
    match rest with
    | ',' :: rest =>
      let (as, rest) ← separated item close fuel rest
      some (a :: as, rest)
    | c :: rest => if c = close then some ([a], rest) else none
    | [] => none

def arrayItem (value : List Char → Option (Toml × List Char)) (cs : List Char) :
    Option (Option Toml × List Char) := do
  let cs ← dropSpace cs.length cs
  match cs with
  | ']' :: _ => some (none, cs)
  | _ =>
    let (v, rest) ← value cs
    let rest ← dropSpace rest.length rest
    some (some v, rest)

/-- The rest of an array. A comma may stand behind the last item. -/
def arrayRest (value : List Char → Option (Toml × List Char)) (cs : List Char) :
    Option (Toml × List Char) := do
  let (items, rest) ← separated (arrayItem value) ']' (cs.length + 1) cs
  some (.array (items.filterMap id), rest)

def pair (value : List Char → Option (Toml × List Char)) (cs : List Char) :
    Option (((List String × String) × Toml) × List Char) := do
  let (k, rest) ← key cs
  match rest with
  | '=' :: rest =>
    let (v, rest) ← value (dropGap rest)
    some ((k, v), dropGap rest)
  | _ => none

def tableRest (value : List Char → Option (Toml × List Char)) (cs : List Char) :
    Option (Toml × List Char) := do
  match dropGap cs with
  | '}' :: rest => some (.table .inlined [], rest)
  | cs =>
    let (pairs, rest) ← separated (pair value) '}' (cs.length + 1) cs
    let members ← pairs.foldlM (fun ms ((path, k), v) => insertDotted k v path ms) []
    some (.table .inlined members, rest)

def value : Nat → List Char → Option (Toml × List Char)
  | 0, cs => scalar cs
  | depth + 1, cs =>
    match cs with
    | '[' :: rest => arrayRest (value depth) rest
    | '{' :: rest => tableRest (value depth) rest
    | _ => scalar cs
where
  scalar (cs : List Char) : Option (Toml × List Char) :=
    match cs with
    | '"' :: _ | '\'' :: _ => (quotedString cs).map fun (s, rest) => (.string (.ofList s), rest)
    | _ => token cs

def trailing? (cs : List Char) : Option (List Char) :=
  let rest := match dropGap cs with
    | '#' :: rest => rest.dropWhile isPlain
    | rest => rest
  if rest = [] then some [] else lineEnd? rest

/-- A document so far: its members and the path of the open table. -/
structure Draft where
  members : Members := []
  current : List String := []

def Draft.enter (d : Draft) (add : String → Members → Option Members)
    (header : List String × String) : Option Draft := do
  let (path, k) := header
  let members ← atPath (add k) path d.members
  some ⟨members, path ++ [k]⟩

/-- The draft after one line, and the text behind the line. -/
def Draft.line (d : Draft) (cs : List Char) : Option (Draft × List Char) := do
  match cs with
  | '[' :: '[' :: rest =>
    let (k, rest) ← key rest
    match rest with
    | ']' :: ']' :: rest => some (← d.enter openTables k, ← trailing? rest)
    | _ => none
  | '[' :: rest =>
    let (k, rest) ← key rest
    match rest with
    | ']' :: rest => some (← d.enter openTable k, ← trailing? rest)
    | _ => none
  | _ =>
    let (((path, k), v), rest) ← pair (value (depthLimit - 1)) cs
    let members ← atPath (insertDotted k v path) d.current d.members
    some ({ d with members }, ← trailing? rest)

def Draft.lines : Nat → Draft → List Char → Option Draft
  | 0, d, cs => if cs = [] then some d else none
  | fuel + 1, d, cs =>
    match dropGap cs with
    | [] => some d
    | '#' :: rest => do
      let rest ← trailing? ('#' :: rest)
      lines fuel d rest
    | cs => match lineEnd? cs with
      | some rest => lines fuel d rest
      | none => do
        let (d, rest) ← d.line cs
        lines fuel d rest

/-- The table that a document writes. A byte order mark may stand in front. -/
def ofText? (s : String) : Option Toml :=
  let cs := match s.toList with
    | '\ufeff' :: rest => rest
    | cs => cs
  (Draft.lines (cs.length + 1) {} cs).map fun d => .table .header d.members

end Snapshots.Toml
