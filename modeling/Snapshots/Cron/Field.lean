/-! # Fields of a cron expression

The seven quantities that an expression restricts, with their limits and names, and the items
that a field may list. An item stands for an arithmetic progression of values.
-/

namespace Snapshots.Cron

inductive Field where
  | second | minute | hour | dayOfMonth | month | dayOfWeek | year
  deriving DecidableEq, Repr

namespace Field

def low : Field → Nat
  | second | minute | hour => 0
  | dayOfMonth | month | dayOfWeek => 1
  | year => 1970

def high : Field → Nat
  | second | minute => 59
  | hour => 23
  | dayOfMonth => 31
  | month => 12
  | dayOfWeek => 7
  | year => 2100

/-- Whether `?` may stand for all values. -/
def hasAnyMark : Field → Bool
  | dayOfMonth | dayOfWeek => true
  | _ => false

/-- The names of months, in lower case. -/
def monthNames : List (String × Nat) :=
  [("jan", 1), ("january", 1), ("feb", 2), ("february", 2), ("mar", 3), ("march", 3), ("apr", 4),
    ("april", 4), ("may", 5), ("jun", 6), ("june", 6), ("jul", 7), ("july", 7), ("aug", 8),
    ("august", 8), ("sep", 9), ("september", 9), ("oct", 10), ("october", 10), ("nov", 11),
    ("november", 11), ("dec", 12), ("december", 12)]

def dayNames : List (String × Nat) :=
  [("sun", 1), ("sunday", 1), ("mon", 2), ("monday", 2), ("tue", 3), ("tues", 3), ("tuesday", 3),
    ("wed", 4), ("wednesday", 4), ("thu", 5), ("thurs", 5), ("thursday", 5), ("fri", 6),
    ("friday", 6), ("sat", 7), ("saturday", 7)]

/-- The value of a name, in any case. -/
def ofName? (f : Field) (name : List Char) : Option Nat :=
  let key := String.ofList (name.map Char.toLower)
  match f with
  | month => monthNames.lookup key
  | dayOfWeek => dayNames.lookup key
  | _ => none

def check? (f : Field) (n : Nat) : Option Nat :=
  if f.low ≤ n ∧ n ≤ f.high then some n else none

end Field

inductive Range where
  | all
  | point (n : Nat)
  | numbers (first last : Nat)
  | names (first last : List Char)
  deriving DecidableEq, Repr

inductive Item where
  | plain (range : Range)
  | stepped (range : Range) (step : Nat)
  | named (name : List Char)
  deriving DecidableEq, Repr

/-- Every `step`-th value from `first` to `last`. -/
structure Span where
  first : Nat
  last : Nat
  step : Nat
  deriving DecidableEq, Repr

def Span.covers (s : Span) (n : Nat) : Bool :=
  s.first ≤ n && n ≤ s.last && (n - s.first) % s.step == 0

/-- The limits that a range sets in a field. A point before a step runs to the field's end. -/
def Range.bounds? (f : Field) (stepped : Bool) : Range → Option (Nat × Nat)
  | .all => some (f.low, f.high)
  | .point n => (f.check? n).map fun n => (n, if stepped then f.high else n)
  | .numbers a b => ordered? a b
  | .names a b => do ordered? (← f.ofName? a) (← f.ofName? b)
where
  /-- Both limits belong to the field and ascend. -/
  ordered? (a b : Nat) : Option (Nat × Nat) := do
    let a ← f.check? a
    let b ← f.check? b
    if a ≤ b then some (a, b) else none

/-- The progression that an item stands for in a field. -/
def Item.span? (f : Field) : Item → Option Span
  | .plain range => (range.bounds? f false).map fun (a, b) => ⟨a, b, 1⟩
  | .stepped range step =>
    if 1 ≤ step ∧ step ≤ f.high then (range.bounds? f true).map fun (a, b) => ⟨a, b, step⟩
    else none
  | .named name => do
    let n ← f.ofName? name
    some ⟨n, n, 1⟩

def Field.values? (f : Field) (items : List Item) : Option (List Nat) := do
  let spans ← items.mapM (Item.span? f)
  some ((List.range (f.high + 1)).filter fun n => spans.any (·.covers n))

end Snapshots.Cron
