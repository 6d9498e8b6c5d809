import Snapshots.Text.Decimal

/-! # Days of the week by number

In the last field of an expression the days count from Sunday as 0, and 7 is Sunday too. The
grammar counts from Sunday as 1, so numeric items are renumbered and written out day by day.
Items with a letter in them stay as they are.
-/

namespace Snapshots.Cron.Weekday

open Text

inductive Fault where
  | badStep (step : List Char)
  | zeroStep
  | outside (day : List Char)
  | descending (range : List Char)
  deriving DecidableEq, Repr

def Fault.message : Fault → String
  | badStep step => "invalid day-of-week step '" ++ String.ofList step ++ "'"
  | zeroStep => "day-of-week step must be positive"
  | outside day => "day-of-week '" ++ String.ofList day ++ "' is outside 0-7"
  | descending range => "invalid day-of-week range '" ++ String.ofList range ++ "'"

def splitOnce (mark : Char) (cs : List Char) : Option (List Char × List Char) :=
  match cs.dropWhile (· ≠ mark) with
  | [] => none
  | _ :: rest => some (cs.takeWhile (· ≠ mark), rest)

def splitAll (mark : Char) : List Char → List (List Char)
  | [] => [[]]
  | c :: cs =>
    if c = mark then [] :: splitAll mark cs
    else match splitAll mark cs with
      | [] => [[c]]
      | piece :: pieces => (c :: piece) :: pieces

def joinWith (mark : Char) : List (List Char) → List Char
  | [] => []
  | [piece] => piece
  | piece :: pieces => piece ++ mark :: joinWith mark pieces

def day (cs : List Char) : Except Fault Nat :=
  match natOfSigned? cs with
  | some n => if n ≤ 7 then .ok n else .error (.outside cs)
  | none => .error (.outside cs)

def step (cs : List Char) : Except Fault Nat :=
  match natOfSigned? cs with
  | some n =>
    if 18446744073709551616 ≤ n then .error (.badStep cs)
    else if n = 0 then .error .zeroStep
    else .ok n
  | none => .error (.badStep cs)

/-- First and last day of a range. A lone day before a step runs to Saturday. -/
def bounds (range : List Char) (stepped : Bool) : Except Fault (Nat × Nat) := do
  if range = ['*'] ∨ range = ['?'] then return (0, 6)
  match splitOnce '-' range with
  | some (first, last) => return (← day first, ← day last)
  | none =>
    let n ← day range
    return (n, if stepped then 6 else n)

def days (item : List Char) : Except Fault (List Nat) := do
  let (range, every?) ← match splitOnce '/' item with
    | some (range, n) => (step n).map fun n => (range, some n)
    | none => .ok (item, none)
  let (first, last) ← bounds range every?.isSome
  if last < first then .error (.descending range)
  return (List.range (last + 1)).filter fun d =>
    first ≤ d && (d - first) % every?.getD 1 == 0

/-- The number that the grammar has for a day. -/
def renumber (day : Nat) : Nat :=
  day % 7 + 1

def renumberItem (item : List Char) : Except Fault (List (List Char)) :=
  if item.any Char.isAlpha then .ok [item]
  else (days item).map fun ds => ds.map fun d => digits (renumber d)

/-- The field in the numbers of the grammar. -/
def renumberField (field : List Char) : Except Fault (List Char) :=
  if field = ['*'] ∨ field = ['?'] then .ok field
  else do
    let items ← (splitAll ',' field).mapM renumberItem
    return joinWith ',' items.flatten

end Snapshots.Cron.Weekday
