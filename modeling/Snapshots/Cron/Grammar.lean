import Snapshots.Cron.Field
import Snapshots.Text.Decimal

/-! # Grammar of cron expressions

An expression is six fields and an optional seventh, the years. A field is a list of items
with commas between them. No blank is needed between two fields, and blanks may stand around
every number, name and list.

A rule takes the text and gives what it read with the text that is left.
-/

namespace Snapshots.Cron

open Text

/-- The characters that count as blanks inside an expression. -/
def isGap (c : Char) : Bool :=
  c = ' ' || c = '\t' || c = '\r' || c = '\n'

/-- The values of the seven fields, each ascending. -/
structure Pattern where
  seconds : List Nat
  minutes : List Nat
  hours : List Nat
  daysOfMonth : List Nat
  months : List Nat
  daysOfWeek : List Nat
  years : List Nat
  deriving DecidableEq, Repr

namespace Grammar

/-- A run of characters of one class with blanks around it. -/
def run (p : Char → Bool) (cs : List Char) : Option (List Char × List Char) :=
  let cs := cs.dropWhile isGap
  let token := cs.takeWhile p
  if token = [] then none else some (token, (cs.dropWhile p).dropWhile isGap)

/-- A number below 2^32. -/
def number (cs : List Char) : Option (Nat × List Char) := do
  let (ds, rest) ← run Char.isDigit cs
  let n := natOfDigits ds
  if n < 4294967296 then some (n, rest) else none

def name (cs : List Char) : Option (List Char × List Char) :=
  run Char.isAlpha cs

def mark (c : Char) : List Char → Option (List Char)
  | d :: rest => if c = d then some rest else none
  | [] => none

def pair {α β : Type} (item : List Char → Option (α × List Char)) (make : α → α → β)
    (cs : List Char) : Option (β × List Char) := do
  let (a, rest) ← item cs
  let (b, rest) ← item (← mark '-' rest)
  some (make a b, rest)

def range (anyMark : Bool) (cs : List Char) : Option (Range × List Char) :=
  (if anyMark then (mark '?' cs).map (.all, ·) else none)
    <|> (mark '*' cs).map (.all, ·)
    <|> pair number .numbers cs
    <|> (number cs).map (fun (n, rest) => (.point n, rest))
    <|> pair name .names cs

/-- A range with a step behind a slash. -/
def stepped (anyMark : Bool) (cs : List Char) : Option (Item × List Char) := do
  let (start, rest) ← range anyMark cs
  let (step, rest) ← number (← mark '/' rest)
  some (.stepped start step, rest)

def item (anyMark : Bool) (cs : List Char) : Option (Item × List Char) :=
  stepped anyMark cs
    <|> (range anyMark cs).map (fun (r, rest) => (.plain r, rest))
    <|> (name cs).map (fun (n, rest) => (.named n, rest))

/-- Further items, each after a comma. A comma with no item behind it is left. -/
def moreItems (anyMark : Bool) : Nat → List Char → List Item × List Char
  | 0, cs => ([], cs)
  | fuel + 1, cs =>
    match (mark ',' cs).bind (item anyMark) with
    | some (i, rest) =>
      let (is, rest) := moreItems anyMark fuel rest
      (i :: is, rest)
    | none => ([], cs)

def field (f : Field) (cs : List Char) : Option (List Nat × List Char) := do
  let (first, rest) ← item f.hasAnyMark (cs.dropWhile isGap)
  let (more, rest) := moreItems f.hasAnyMark rest.length rest
  some (← f.values? (first :: more), rest.dropWhile isGap)

def pattern? (cs : List Char) : Option Pattern := do
  let (seconds, cs) ← field .second cs
  let (minutes, cs) ← field .minute cs
  let (hours, cs) ← field .hour cs
  let (daysOfMonth, cs) ← field .dayOfMonth cs
  let (months, cs) ← field .month cs
  let (daysOfWeek, cs) ← field .dayOfWeek cs
  let (years, cs) := (field .year cs).getD ((List.range 2101).filter (1970 ≤ ·), cs)
  if cs = [] then some ⟨seconds, minutes, hours, daysOfMonth, months, daysOfWeek, years⟩ else none

end Grammar

end Snapshots.Cron
