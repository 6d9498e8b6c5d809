import Snapshots.Json.Basic
import Snapshots.Text.Hex

/-! # What a text says

A text is read as far as it makes sense. The result is a value with the faults of the text at
their places, so that a reader who goes through it in the order of the text meets the first
fault that matters to it: a member that nobody asks for may be skipped, and skipping forgives
faults inside a string and a number that is too large.
-/

namespace Snapshots.Json

open Snapshots.Number (Binary64)
open Text

/-- How a text fails to be JSON: it is malformed, or it ends early. -/
inductive Fault where
  | malformed
  | endOfText
  deriving DecidableEq, Repr

/-- The place at which a text stops making sense, as a reader and a skipper see it. -/
structure Cut where
  read : Fault
  skip : Fault
  deriving DecidableEq, Repr

/-- How a list ends: with its bracket, as a list that was known whole before it was gone
through, or where the text stops making sense. -/
inductive Ending where
  | closed
  | whole
  | broken (cut : Cut)
  deriving DecidableEq, Repr

/-- A value as far as its text makes sense. -/
inductive Reading where
  | null
  | bool (b : Bool)
  | number (n : Except Fault Number)
  | string (s : Except Fault String)
  | array (items : List Reading) (ending : Ending)
  | object (members : List (Except Fault String × Reading)) (ending : Ending)
  | broken (cut : Cut)
  deriving Inhabited

def Cut.both (f : Fault) : Cut := ⟨f, f⟩

def Cut.endOfText : Cut := .both .endOfText

def Cut.malformed : Cut := .both .malformed

mutual

/-- A sound value as something read, whose lists end in one way. -/
def readingWith (ending : Ending) : Json → Reading
  | .null => .null
  | .bool b => .bool b
  | .number n => .number (.ok n)
  | .string s => .string (.ok s)
  | .array items => .array (readingsWith ending items) ending
  | .object members => .object (memberReadingsWith ending members) ending

def readingsWith (ending : Ending) : List Json → List Reading
  | [] => []
  | v :: vs => v.readingWith ending :: readingsWith ending vs

def memberReadingsWith (ending : Ending) :
    List (String × Json) → List (Except Fault String × Reading)
  | [] => []
  | (k, v) :: ms => (.ok k, v.readingWith ending) :: memberReadingsWith ending ms

end

/-- A sound value as its text says it. -/
abbrev reading (v : Json) : Reading := v.readingWith .closed

/-- A sound value that was known before it is read. -/
abbrev known (v : Json) : Reading := v.readingWith .whole

namespace Reading

def isGap (c : Char) : Bool :=
  c = ' ' || c = '\n' || c = '\t' || c = '\r'

/-- What is left of the text, none once it has stopped making sense. -/
abbrev Rest := Option (List Char)

/-- Four hexadecimal digits. With fewer than four octets left the text has ended. -/
def hexUnit (cs : List Char) : Except Fault (Nat × List Char) :=
  match (cs.take 4).mapM hexValue? with
  | some [a, b, c, d] => .ok (((a * 16 + b) * 16 + c) * 16 + d, cs.drop 4)
  | _ =>
    if (cs.take 4).foldl (fun n c => n + c.utf8Size) 0 < 4 then .error .endOfText
    else .error .malformed

/-- The character that stands for itself behind a backslash, or that its letter names. -/
def simpleEscape? : Char → Option Char
  | '"' => some '"'
  | '\\' => some '\\'
  | '/' => some '/'
  | 'b' => some '\x08'
  | 'f' => some '\x0c'
  | 'n' => some '\n'
  | 'r' => some '\r'
  | 't' => some '\t'
  | _ => none

/-- A character written as one or two units of sixteen bits. -/
def escapedUnits (cs : List Char) : Except Fault (Char × List Char) := do
  let (n, rest) ← hexUnit cs
  if 0xDC00 ≤ n ∧ n ≤ 0xDFFF then .error .malformed
  else if n < 0xD800 ∨ 0xDBFF < n then .ok (Char.ofNat n, rest)
  else match rest with
    | '\\' :: 'u' :: rest => do
      let (m, rest) ← hexUnit rest
      if 0xDC00 ≤ m ∧ m ≤ 0xDFFF then
        .ok (Char.ofNat ((n - 0xD800) * 1024 + (m - 0xDC00) + 0x10000), rest)
      else .error .malformed
    | [] | ['\\'] => .error .endOfText
    | _ => .error .malformed

/-- The text of a string up to its closing quote, by a strict reader. Characters for which
`illFormed` holds stand for octets that are no part of a character. -/
def strictString (illFormed : Char → Bool) : Nat → List Char → List Char → Bool →
    Except Fault (String × List Char)
  | 0, _, _, _ => .error .endOfText
  | _ + 1, [], _, _ => .error .endOfText
  | fuel + 1, c :: cs, acc, sound =>
    if c = '"' then
      if sound then .ok (String.ofList acc.reverse, cs) else .error .malformed
    else if c = '\\' then
      match cs with
      | [] => .error .endOfText
      | 'u' :: cs => do
        let (d, rest) ← escapedUnits cs
        strictString illFormed fuel rest (d :: acc) sound
      | e :: cs =>
        match simpleEscape? e with
        | some d => strictString illFormed fuel cs (d :: acc) sound
        | none => .error .malformed
    else if c.toNat < 0x20 then .error .malformed
    else strictString illFormed fuel cs (c :: acc) (sound && !illFormed c)

/-- What is left behind the closing quote of a string that is skipped. -/
def skippedString : Nat → List Char → Except Fault (List Char)
  | 0, _ => .error .endOfText
  | _ + 1, [] => .error .endOfText
  | fuel + 1, c :: cs =>
    if c = '"' then .ok cs
    else if c = '\\' then
      match cs with
      | [] => .error .endOfText
      | 'u' :: cs => do
        let (_, rest) ← hexUnit cs
        skippedString fuel rest
      | e :: cs => if (simpleEscape? e).isSome then skippedString fuel cs else .error .malformed
    else if c.toNat < 0x20 then .error .malformed
    else skippedString fuel cs

def faultOf {α : Type} : Except Fault α → Fault
  | .error f => f
  | .ok _ => .malformed

def stringBody (illFormed : Char → Bool) (cs : List Char) :
    Except Cut (Except Fault String × List Char) :=
  let strict := strictString illFormed (cs.length + 1) cs [] true
  match skippedString (cs.length + 1) cs with
  | .ok rest => .ok (strict.map (·.1), rest)
  | .error skip => .error ⟨faultOf strict, skip⟩

def digitRun (cs : List Char) : List Char × List Char :=
  (cs.takeWhile Char.isDigit, cs.dropWhile Char.isDigit)

/-- The parts of a number: digits before the point, after it, and the exponent with its sign. -/
structure Numeral where
  negative : Bool
  whole : List Char
  fraction : Option (List Char)
  exponent : Option (Bool × List Char)
  deriving Repr

/-- An early end that a skipper takes for a wrong character. -/
def Cut.inNumber (rest : List Char) : Cut :=
  if rest = [] then ⟨.endOfText, .malformed⟩ else .malformed

/-- The parts of a number, from behind its sign. -/
def numeral (negative : Bool) (cs : List Char) : Except Cut (Numeral × List Char) := do
  let (whole, rest) := digitRun cs
  if whole = [] then .error (Cut.inNumber rest)
  if whole.head? = some '0' ∧ 1 < whole.length then .error .malformed
  let (fraction, rest) ← match rest with
    | '.' :: rest =>
      let (ds, rest) := digitRun rest
      if ds = [] then .error (Cut.inNumber rest) else .ok (some ds, rest)
    | _ => .ok (none, rest)
  let (exponent, rest) ← match rest with
    | 'e' :: rest | 'E' :: rest =>
      let (down, rest) := match rest with
        | '-' :: rest => (true, rest)
        | '+' :: rest => (false, rest)
        | _ => (false, rest)
      let (ds, rest) := digitRun rest
      if ds = [] then .error (Cut.inNumber rest) else .ok (some (down, ds), rest)
    | _ => .ok (none, rest)
  .ok (⟨negative, whole, fraction, exponent⟩, rest)

/-- The digits that fit into 64 bits, as a number, and the digits that do not. -/
def significand (limit : Nat) : Nat → List Char → Nat × List Char
  | n, [] => (n, [])
  | n, c :: cs =>
    let m := n * 10 + digitValue c
    if m < limit then significand limit m cs else (n, c :: cs)

def wordLimit : Nat := 18446744073709551616

/-- A significand times a power of ten, multiplied or divided in double precision by at most
`10 ^ 308` at a time. None is beyond the greatest number. -/
def scale (x : Binary64) : Nat → Int → Option Binary64
  | 0, _ => some x
  | fuel + 1, e =>
    let power (k : Nat) : Binary64 := (Binary64.ofNat? (Nat.pow 10 k)).getD default
    if e.natAbs ≤ 308 then
      if 0 ≤ e then x.mul? (power e.natAbs) else x.div? (power e.natAbs)
    else if x.mantissa = 0 then some x
    else if 0 ≤ e then none
    else (x.div? (power 308)).bind fun y => scale y fuel (e + 308)

/-- The value of a number: an integer of 64 bits if it is written as one and fits, otherwise a
double-precision number. -/
def Numeral.value (m : Numeral) : Except Fault Number :=
  let (n, excess) := significand wordLimit 0 m.whole
  let signed (x : Binary64) : Number := .binary { x with negative := m.negative }
  if m.fraction = none ∧ m.exponent = none ∧ excess = [] ∧
      ¬ (m.negative ∧ (n = 0 ∨ wordLimit / 2 < n)) then
    .ok (if m.negative then .negative n else .natural n)
  else
    let (n, dropped) : Nat × Nat := match m.fraction with
      | some ds =>
        let (n, excess) := significand wordLimit n ds
        (n, ds.length - excess.length)
      | none => (n, 0)
    let start : Int := excess.length - dropped
    let exponent : Option (Bool × Nat) := m.exponent.map fun (down, ds) => (down, natOfDigits ds)
    match exponent with
    | some (down, k) =>
      if 2147483647 < k then
        if n ≠ 0 ∧ ¬ down then .error .malformed else .ok (signed ⟨false, 0, 0⟩)
      else finish n (if down then start - k else start + k) signed
    | none => finish n start signed
where
  finish (n : Nat) (e : Int) (signed : Binary64 → Number) : Except Fault Number :=
    match (Binary64.ofNat? n).bind fun x => scale x (e.natAbs / 308 + 1) e with
    | some x => .ok (signed x)
    | none => .error .malformed

def literal (letters : List Char) (v : Reading) : List Char → Reading × Rest
  | cs =>
    if cs.take letters.length = letters then (v, some (cs.drop letters.length))
    else if cs = letters.take cs.length then (.broken .endOfText, none)
    else (.broken .malformed, none)

def numberValue (negative : Bool) (cs : List Char) : Reading × Rest :=
  match numeral negative cs with
  | .ok (m, rest) => (.number m.value, some rest)
  | .error cut => (.broken cut, none)

mutual

def value (illFormed : Char → Bool) : Nat → List Char → Reading × Rest
  | 0, _ => (.broken .endOfText, none)
  | fuel + 1, cs =>
    match cs.dropWhile isGap with
    | [] => (.broken .endOfText, none)
    | 'n' :: cs => literal ['u', 'l', 'l'] .null cs
    | 't' :: cs => literal ['r', 'u', 'e'] (.bool true) cs
    | 'f' :: cs => literal ['a', 'l', 's', 'e'] (.bool false) cs
    | '"' :: cs =>
      match stringBody illFormed cs with
      | .ok (s, rest) => (.string s, some rest)
      | .error cut => (.broken cut, none)
    | '[' :: cs =>
      let (items, ending, rest) := items illFormed fuel true cs
      (.array items ending, rest)
    | '{' :: cs =>
      let (members, ending, rest) := members illFormed fuel true cs
      (.object members ending, rest)
    | '-' :: cs => numberValue true cs
    | c :: cs => if c.isDigit then numberValue false (c :: cs) else (.broken .malformed, none)

/-- The items of an array up to its bracket; `first` until an item has been read. -/
def items (illFormed : Char → Bool) : Nat → Bool → List Char → List Reading × Ending × Rest
  | 0, _, _ => ([], .broken .endOfText, none)
  | fuel + 1, first, cs =>
    match cs.dropWhile isGap with
    | [] => ([], .broken .endOfText, none)
    | c :: cs =>
      if c = ']' then ([], .closed, some cs)
      else if first then itemThen illFormed fuel (c :: cs)
      else if c = ',' then
        match cs.dropWhile isGap with
        | ']' :: _ => ([.broken .malformed], .closed, none)
        | cs => itemThen illFormed fuel cs
      else ([], .broken .malformed, none)

def itemThen (illFormed : Char → Bool) : Nat → List Char → List Reading × Ending × Rest
  | 0, _ => ([], .broken .endOfText, none)
  | fuel + 1, cs =>
    match value illFormed fuel cs with
    | (v, some rest) =>
      let (vs, ending, rest) := items illFormed fuel false rest
      (v :: vs, ending, rest)
    | (v, none) => ([v], .closed, none)

/-- The members of an object up to its brace; `first` until a member has been read. -/
def members (illFormed : Char → Bool) : Nat → Bool → List Char →
    List (Except Fault String × Reading) × Ending × Rest
  | 0, _, _ => ([], .broken .endOfText, none)
  | fuel + 1, first, cs =>
    match cs.dropWhile isGap with
    | [] => ([], .broken .endOfText, none)
    | c :: cs =>
      if c = '}' then ([], .closed, some cs)
      else if first then memberThen illFormed fuel (c :: cs)
      else if c = ',' then memberThen illFormed fuel (cs.dropWhile isGap)
      else ([], .broken .malformed, none)

def memberThen (illFormed : Char → Bool) : Nat → List Char →
    List (Except Fault String × Reading) × Ending × Rest
  | 0, _ => ([], .broken .endOfText, none)
  | fuel + 1, cs =>
    match cs with
    | [] => ([], .broken .endOfText, none)
    | '"' :: cs =>
      match stringBody illFormed cs with
      | .error cut => ([], .broken cut, none)
      | .ok (key, rest) =>
        match rest.dropWhile isGap with
        | ':' :: rest =>
          match value illFormed fuel rest with
          | (v, some rest) =>
            let (ms, ending, rest) := members illFormed fuel false rest
            ((key, v) :: ms, ending, rest)
          | (v, none) => ([(key, v)], .closed, none)
        | [] => ([(key, .broken .endOfText)], .closed, none)
        | _ => ([(key, .broken .malformed)], .closed, none)
    | _ => ([], .broken .malformed, none)

end

def ofChars (illFormed : Char → Bool) (cs : List Char) : Reading × Bool :=
  match value illFormed (3 * cs.length + 3) cs with
  | (v, some rest) => (v, (rest.dropWhile isGap) ≠ [])
  | (v, none) => (v, false)

/-- What a text says, with a text after the value as a fault behind it. -/
def ofText (s : String) : Reading × Bool :=
  ofChars (fun _ => false) s.toList

end Reading

end Snapshots.Json
