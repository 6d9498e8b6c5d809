import Snapshots.Text.Blank
import Snapshots.Text.Decimal
import Snapshots.Time.Instant

/-! # Times as text

Instants are written in universal time with the shortest exact fraction. They are read with
any offset, blanks around the numbers, and numbers of fewer digits.
-/

namespace Snapshots.Time

open Text

inductive TimeFault where
  | tooShort
  | tooLong
  | invalid
  | outOfRange
  | impossible
  deriving DecidableEq, Repr

def TimeFault.message : TimeFault → String
  | tooShort => "premature end of input"
  | tooLong => "trailing input"
  | invalid => "input contains invalid characters"
  | outOfRange => "input is out of range"
  | impossible => "no possible date and time matching input"

namespace Rfc3339

/-- A year of four digits, or with a sign if it needs more or is negative. -/
def writeYear (year : Int) : List Char :=
  if 0 ≤ year ∧ year ≤ 9999 then padded 4 year.toNat
  else if year < 0 then '-' :: padded 4 year.natAbs
  else '+' :: padded 4 year.natAbs

/-- A fraction of a second in 0, 3, 6 or 9 digits, the least that are exact. -/
def writeFraction (nanos : Nat) : List Char :=
  if nanos = 0 then []
  else if nanos % 1000000 = 0 then '.' :: padded 3 (nanos / 1000000)
  else if nanos % 1000 = 0 then '.' :: padded 6 (nanos / 1000)
  else '.' :: padded 9 nanos

def writeDate (d : Date) : List Char :=
  writeYear d.year ++ '-' :: padded 2 d.month ++ '-' :: padded 2 d.day

def writeClock (t : Instant) : List Char :=
  padded 2 (t.secondOfDay / 3600) ++ ':' :: padded 2 (t.secondOfDay / 60 % 60) ++
    ':' :: padded 2 t.clockSecond

def writeWith (zone : List Char) (t : Instant) : List Char :=
  writeDate t.date ++ 'T' :: writeClock t ++ writeFraction t.clockNanos ++ zone

def readNumber (width : Nat) : List Char → Except TimeFault (Nat × List Char)
  | [] => .error .tooShort
  | c :: cs =>
    if c.isDigit then
      let ds := ((c :: cs).take width).takeWhile Char.isDigit
      .ok (natOfDigits ds, (c :: cs).drop ds.length)
    else .error .invalid

def readField (low high : Nat) (cs : List Char) : Except TimeFault (Nat × List Char) := do
  let (n, rest) ← readNumber 2 (dropBlanks cs)
  if low ≤ n ∧ n ≤ high then .ok (n, rest) else .error .outOfRange

def readMark (mark : Char) (cs : List Char) : Except TimeFault (List Char) :=
  match dropBlanks cs with
  | [] => .error .tooShort
  | c :: rest => if c = mark then .ok rest else .error .invalid

/-- A year of four digits, or of any number of them after a sign. -/
def readYear (cs : List Char) : Except TimeFault (Int × List Char) := do
  let cs := dropBlanks cs
  let (year, rest) ← match cs with
    | '-' :: cs => (readNumber cs.length cs).map fun (n, rest) => (-(n : Int), rest)
    | '+' :: cs => (readNumber cs.length cs).map fun (n, rest) => ((n : Int), rest)
    | _ => (readNumber 4 cs).map fun (n, rest) => ((n : Int), rest)
  if -2147483648 ≤ year ∧ year ≤ 2147483647 then .ok (year, rest) else .error .outOfRange

/-- Nanoseconds after a point, if there is a point. Digits beyond the ninth are dropped. -/
def readFraction : List Char → Except TimeFault (Nat × List Char)
  | '.' :: cs => do
    let (n, rest) ← readNumber 9 cs
    let width := cs.length - rest.length
    .ok (n * Nat.pow 10 (9 - width), rest.dropWhile Char.isDigit)
  | cs => .ok (0, cs)

def readPair : List Char → Except TimeFault (Nat × List Char)
  | [] => .error .tooShort
  | [c] => if c.utf8Size < 2 then .error .tooShort else .error .invalid
  | c :: d :: cs =>
    if c.isDigit && d.isDigit then .ok (natOfDigits [c, d], cs) else .error .invalid

/-- Seconds by which the written time is ahead of universal time. -/
def readOffset (cs : List Char) : Except TimeFault (Int × List Char) :=
  match cs with
  | 'Z' :: rest | 'z' :: rest => .ok (0, rest)
  | [] => .error .tooShort
  | sign :: rest =>
    if (cs.take 3).map Char.toUpper = ['U', 'T', 'C'] then .ok (0, cs.drop 3)
    else if sign = '+' ∨ sign = '-' ∨ sign = '−' then do
      let (hours, rest) ← readPair rest
      let (minutes, rest) ← readPair (rest.dropWhile fun c => c = ':' || isBlank c)
      if minutes < 60 then
        let seconds : Int := hours * 3600 + minutes * 60
        .ok (if sign = '+' then seconds else -seconds, rest)
      else .error .outOfRange
    else .error .invalid

def readSeparator : List Char → Except TimeFault (List Char)
  | [] => .error .tooShort
  | c :: rest => if c = 'T' ∨ c = 't' ∨ isBlank c then .ok rest else .error .invalid

/-- The instant of a local date and time with an offset. -/
def combine (date : Date) (hour minute second nanos : Nat) (offset : Int) :
    Except TimeFault Instant := do
  if ¬ date.Valid then .error .outOfRange
  let leap := second / 60
  let «local» := date.dayNumber * secondsPerDay + (hour * 3600 + minute * 60 + second - leap : Nat)
  if «local» < firstSecond ∨ lastSecond < «local» then .error .outOfRange
  if offset ≤ -86400 ∨ 86400 ≤ offset then .error .outOfRange
  match Instant.ofParts? («local» - offset) (nanos + leap * nanosPerSecond) with
  | some t => .ok t
  | none => .error .impossible

def read (cs : List Char) : Except TimeFault Instant := do
  let (year, cs) ← readYear cs
  let cs ← readMark '-' cs
  let (month, cs) ← readField 1 12 cs
  let cs ← readMark '-' cs
  let (day, cs) ← readField 1 31 cs
  let cs ← readSeparator cs
  let (hour, cs) ← readField 0 23 cs
  let cs ← readMark ':' cs
  let (minute, cs) ← readField 0 59 cs
  let cs ← readMark ':' cs
  let (second, cs) ← readField 0 60 cs
  let (nanos, cs) ← readFraction cs
  let (offset, cs) ← readOffset (dropBlanks cs)
  if dropBlanks cs ≠ [] then .error .tooLong
  combine ⟨year, month, day⟩ hour minute second nanos offset

end Rfc3339

namespace Instant

/-- The instant as text that ends in `Z`. -/
def toText (t : Instant) : String :=
  String.ofList (Rfc3339.writeWith ['Z'] t)

def toOffsetText (t : Instant) : String :=
  String.ofList (Rfc3339.writeWith "+00:00".toList t)

def ofText (s : String) : Except TimeFault Instant :=
  Rfc3339.read s.toList

/-- The instant as a table shows it: date and time of the day to the second. -/
def toColumn (t : Instant) : String :=
  String.ofList (Rfc3339.writeDate t.date ++ ' ' :: Rfc3339.writeClock t)

end Instant

end Snapshots.Time
