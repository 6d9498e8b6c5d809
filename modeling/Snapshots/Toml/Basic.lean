/-! # TOML values

Values of TOML, and tables that are built up by headers and dotted keys. A table remembers how it
came about, because that decides whether it may be extended.
-/

namespace Snapshots

inductive Toml.Origin where
  /-- By a header of its own. -/
  | header
  /-- By a header of a table below it. -/
  | implied
  /-- By a dotted key. -/
  | dotted
  /-- As a value in braces. -/
  | inlined
  deriving DecidableEq, Repr

inductive Toml where
  | string (s : String)
  | integer (n : Int)
  | float (text : String)
  | boolean (b : Bool)
  | dateTime (text : String)
  | array (items : List Toml)
  /-- An array of tables with headers of their own. -/
  | tables (items : List Toml)
  | table (origin : Toml.Origin) (members : List (String × Toml))
  deriving Inhabited

namespace Toml

abbrev Members := List (String × Toml)

def replace (key : String) (v : Toml) (ms : Members) : Members :=
  ms.map fun (k, w) => if k = key then (k, v) else (k, w)

def atLast (f : Members → Option Members) (ts : List Toml) : Option (List Toml) :=
  match ts.getLast? with
  | some (.table o inner) => do
    let inner ← f inner
    some (ts.dropLast ++ [.table o inner])
  | _ => none

/-- The members with a value under a key, which must be new. -/
def insertNew (key : String) (v : Toml) (ms : Members) : Option Members :=
  if (ms.lookup key).isSome then none else some (ms ++ [(key, v)])

/-- The members with a value under a key below a dotted path. Dotted keys may extend what dotted
keys began, and must not reach into a table of another origin. -/
def insertDotted (key : String) (v : Toml) : List String → Members → Option Members
  | [], ms => insertNew key v ms
  | p :: path, ms =>
    match ms.lookup p with
    | none => do
      let inner ← insertDotted key v path []
      some (ms ++ [(p, .table .dotted inner)])
    | some (.table o inner) => do
      if o = .dotted ∨ (o = .implied ∧ path ≠ []) then
        let inner ← insertDotted key v path inner
        some (replace p (.table o inner) ms)
      else none
    | some (.tables ts) => do
      if path = [] then none
      let ts ← atLast (insertDotted key v path) ts
      some (replace p (.tables ts) ms)
    | some _ => none

/-- The members with a change in the table that a path of a header leads to. Tables that are
missing on the way are implied. -/
def atPath (f : Members → Option Members) : List String → Members → Option Members
  | [], ms => f ms
  | p :: path, ms =>
    match ms.lookup p with
    | none => do
      let inner ← atPath f path []
      some (ms ++ [(p, .table .implied inner)])
    | some (.table o inner) => do
      if o = .inlined then none
      let inner ← atPath f path inner
      some (replace p (.table o inner) ms)
    | some (.tables ts) => do
      let ts ← atLast (atPath f path) ts
      some (replace p (.tables ts) ms)
    | some _ => none

/-- The members with a table of its own header. A table may have only one. -/
def openTable (key : String) (ms : Members) : Option Members :=
  match ms.lookup key with
  | none => some (ms ++ [(key, .table .header [])])
  | some (.table .implied inner) => some (replace key (.table .header inner) ms)
  | some _ => none

/-- The members with one more table in an array of tables. -/
def openTables (key : String) (ms : Members) : Option Members :=
  match ms.lookup key with
  | none => some (ms ++ [(key, .tables [.table .header []])])
  | some (.tables ts) => some (replace key (.tables (ts ++ [.table .header []])) ms)
  | some _ => none

end Toml

end Snapshots
