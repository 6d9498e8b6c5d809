import Snapshots.Number.Binary64
import Snapshots.Text.Hex
import Snapshots.Toml.Basic

/-! # TOML scalars

Numbers, dates, times and words are recognised as whole tokens. Strings come in four kinds, with
and without escapes, on one line or on several.
-/

namespace Snapshots.Toml

open Number Text

def isGap (c : Char) : Bool :=
  c = ' ' || c = '\t'

def isPlain (c : Char) : Bool :=
  c = '\t' || (' ' ≤ c && c ≠ '\x7f')

def isTokenChar (c : Char) : Bool :=
  c.isAlphanum || c = '+' || c = '-' || c = '.' || c = '_' || c = ':'

def lineEnd? : List Char → Option (List Char)
  | '\n' :: rest => some rest
  | '\r' :: '\n' :: rest => some rest
  | _ => none

/-! ### Numbers -/

/-- The digits of a run in which single underscores may stand between digits. -/
def spacedDigits? (p : Char → Bool) : List Char → Option (List Char)
  | [] => none
  | [c] => if p c then some [c] else none
  | c :: '_' :: rest => if p c then (spacedDigits? p rest).map (c :: ·) else none
  | c :: rest => if p c then (spacedDigits? p rest).map (c :: ·) else none

def signed (cs : List Char) : Bool × List Char :=
  match cs with
  | '-' :: rest => (true, rest)
  | '+' :: rest => (false, rest)
  | _ => (false, cs)

/-- The number of a decimal integer without a sign. It has no leading zero. -/
def decimal? (cs : List Char) : Option Nat := do
  let ds ← spacedDigits? Char.isDigit cs
  if ds.head? = some '0' ∧ cs ≠ ['0'] then none else some (natOfDigits ds)

def inBase? (base : Nat) (cs : List Char) : Option Nat := do
  let isDigit (c : Char) : Bool := (hexValue? c).any (· < base)
  let ds ← spacedDigits? isDigit cs
  some (ds.foldl (fun n c => n * base + (hexValue? c).getD 0) 0)

def maxInteger : Int := 9223372036854775807

def integer? (cs : List Char) : Option Int := do
  let n : Int ← match cs with
    | '0' :: 'x' :: ds => (inBase? 16 ds).map Int.ofNat
    | '0' :: 'o' :: ds => (inBase? 8 ds).map Int.ofNat
    | '0' :: 'b' :: ds => (inBase? 2 ds).map Int.ofNat
    | _ =>
      let (negative, ds) := signed cs
      (decimal? ds).map fun n => if negative then -n else n
  if n ≤ maxInteger ∧ -maxInteger - 1 ≤ n then some n else none

/-- Whether a decimal number, a natural times a power of ten, is beyond double precision. -/
def overflows (mantissa : Nat) (exponent : Int) : Bool :=
  let magnitude := (digits mantissa).length + exponent
  if mantissa = 0 ∨ magnitude < 300 then false
  else if 400 < magnitude then true
  else if exponent < 0 then (Binary64.ofRatio? mantissa (Nat.pow 10 exponent.natAbs)).isNone
  else (Binary64.ofRatio? (mantissa * Nat.pow 10 exponent.natAbs) 1).isNone

/-- A floating-point number. One above all numbers of double precision is refused; one below all
of them is not. -/
def float? (cs : List Char) : Option String := do
  let (negative, ds) := signed cs
  let text := String.ofList cs
  if ds = ['i', 'n', 'f'] ∨ ds = ['n', 'a', 'n'] then return text
  let whole := ds.takeWhile fun c => c.isDigit || c = '_'
  let rest := ds.drop whole.length
  let n ← decimal? whole
  let (frac, rest) ← match rest with
    | '.' :: rest =>
      let frac := rest.takeWhile fun c => c.isDigit || c = '_'
      (spacedDigits? Char.isDigit frac).map fun ds => (ds, rest.drop frac.length)
    | _ => some ([], rest)
  let exponent : Int ← match rest with
    | [] => if frac = [] then none else some 0
    | e :: rest =>
      if e = 'e' ∨ e = 'E' then
        let (down, ds) := signed rest
        (spacedDigits? Char.isDigit ds).map fun ds =>
          if down then -(natOfDigits ds : Int) else natOfDigits ds
      else none
  let mantissa := frac.foldl (fun n c => n * 10 + digitValue c) n
  if overflows mantissa (exponent - frac.length) ∧ ¬ negative then none else return text

/-! ### Dates and times -/

def fixed? (cs : List Char) : Option Nat :=
  if cs.all Char.isDigit then some (natOfDigits cs) else none

def monthDays (year month : Nat) : Nat :=
  if month = 2 then
    if year % 4 = 0 ∧ (year % 100 ≠ 0 ∨ year % 400 = 0) then 29 else 28
  else if month = 4 ∨ month = 6 ∨ month = 9 ∨ month = 11 then 30
  else 31

def isDate : List Char → Bool
  | [a, b, c, d, '-', e, f, '-', g, h] =>
    match fixed? [a, b, c, d], fixed? [e, f], fixed? [g, h] with
    | some year, some month, some day =>
      1 ≤ month && month ≤ 12 && 1 ≤ day && day ≤ monthDays year month
    | _, _, _ => false
  | _ => false

def isHourMinute : List Char → Bool
  | [a, b, ':', c, d] =>
    match fixed? [a, b], fixed? [c, d] with
    | some hour, some minute => hour ≤ 23 && minute ≤ 59
    | _, _ => false
  | _ => false

def isOffset : List Char → Bool
  | [] | ['Z'] | ['z'] => true
  | '+' :: rest | '-' :: rest => isHourMinute rest
  | _ => false

/-- What stands behind a time of the day. A second may have a fraction, and may be the 61st. -/
def afterTime? (cs : List Char) : Option (List Char) :=
  match cs.drop 5 with
  | ':' :: a :: b :: rest =>
    if isHourMinute (cs.take 5) && (fixed? [a, b]).any (· ≤ 60) then
      match rest with
      | '.' :: c :: rest => if c.isDigit then some (rest.dropWhile Char.isDigit) else none
      | '.' :: [] => none
      | rest => some rest
    else none
  | _ => none

def isTimeOfDay (offset : Bool) (cs : List Char) : Bool :=
  (afterTime? cs).any fun rest => if offset then isOffset rest else rest = []

def isDateTime (cs : List Char) : Bool :=
  isDate cs || isTimeOfDay false cs ||
    (isDate (cs.take 10) && match cs.drop 10 with
      | 'T' :: rest | 't' :: rest => isTimeOfDay true rest
      | _ => false)

/-! ### Tokens -/

def ofToken? (cs : List Char) : Option Toml :=
  if cs = "true".toList then some (.boolean true)
  else if cs = "false".toList then some (.boolean false)
  else if isDateTime cs then some (.dateTime (String.ofList cs))
  else match integer? cs with
    | some n => some (.integer n)
    | none => (float? cs).map .float

/-- A token and the text behind it. A blank may stand between a date and a time. -/
def token (cs : List Char) : Option (Toml × List Char) := do
  let word := cs.takeWhile isTokenChar
  let rest := cs.drop word.length
  match isDate word, rest with
  | true, ' ' :: more =>
    let time := more.takeWhile isTokenChar
    if time = [] then some (.dateTime (String.ofList word), rest)
    else if isTimeOfDay true time then
      some (.dateTime (String.ofList (word ++ ' ' :: time)), more.drop time.length)
    else none
  | _, _ => (ofToken? word).map (·, rest)

/-! ### Strings -/

/-- The character of a code point, unless that is half of a pair or too large. -/
def scalar? (n : Nat) : Option Char :=
  if n < 0xD800 ∨ (0xDFFF < n ∧ n < 0x110000) then some (Char.ofNat n) else none

def codePoint (count : Nat) (cs : List Char) : Option (Char × List Char) := do
  let ds ← (cs.take count).mapM hexValue?
  if ds.length ≠ count then none
  let c ← scalar? (ds.foldl (fun n d => n * 16 + d) 0)
  some (c, cs.drop count)

/-- What stands behind a backslash, as the character that it means. -/
def escape : List Char → Option (Char × List Char)
  | '"' :: rest => some ('"', rest)
  | '\\' :: rest => some ('\\', rest)
  | 'b' :: rest => some ('\x08', rest)
  | 'f' :: rest => some ('\x0c', rest)
  | 'n' :: rest => some ('\n', rest)
  | 'r' :: rest => some ('\r', rest)
  | 't' :: rest => some ('\t', rest)
  | 'u' :: rest => codePoint 4 rest
  | 'U' :: rest => codePoint 8 rest
  | _ => none

def basicString : Nat → List Char → Option (List Char × List Char)
  | 0, _ | _ + 1, [] => none
  | _ + 1, '"' :: rest => some ([], rest)
  | fuel + 1, '\\' :: rest => do
    let (c, rest) ← escape rest
    let (cs, rest) ← basicString fuel rest
    some (c :: cs, rest)
  | fuel + 1, c :: rest => do
    if ¬ isPlain c then none
    let (cs, rest) ← basicString fuel rest
    some (c :: cs, rest)

def literalString (cs : List Char) : Option (List Char × List Char) :=
  let text := cs.takeWhile fun c => isPlain c && c ≠ '\''
  match cs.drop text.length with
  | '\'' :: rest => some (text, rest)
  | _ => none

def dropLines : Nat → List Char → List Char
  | 0, cs => cs
  | _ + 1, [] => []
  | fuel + 1, c :: rest =>
    if isGap c then dropLines fuel rest
    else match lineEnd? (c :: rest) with
      | some rest => dropLines fuel rest
      | none => c :: rest

/-- The rest of a string on several lines, between three of a quote. Up to two quotes may stand
right before the closing ones. A backslash at the end of a line joins it to the next text. -/
def linesString (quote : Char) (escapes : Bool) : Nat → List Char →
    Option (List Char × List Char)
  | 0, _ | _ + 1, [] => none
  | fuel + 1, c :: rest =>
    let go (added taken : List Char) : Option (List Char × List Char) := do
      let (cs, rest) ← linesString quote escapes fuel taken
      some (added ++ cs, rest)
    if c = quote then
      let quotes := (c :: rest).takeWhile (· = quote)
      let behind := (c :: rest).drop quotes.length
      if quotes.length < 3 then go quotes behind
      else if quotes.length ≤ 5 then some (quotes.drop 3, behind)
      else none
    else if escapes ∧ c = '\\' then
      match lineEnd? (rest.dropWhile isGap) with
      | some behind => go [] (dropLines behind.length behind)
      | none => do
        let (d, behind) ← escape rest
        go [d] behind
    else match lineEnd? (c :: rest) with
      | some behind => go ['\n'] behind
      | none => if isPlain c then go [c] rest else none

def dropLineEnd (cs : List Char) : List Char :=
  (lineEnd? cs).getD cs

def quotedString : List Char → Option (List Char × List Char)
  | '"' :: '"' :: '"' :: rest =>
    let cs := dropLineEnd rest
    linesString '"' true (cs.length + 1) cs
  | '"' :: rest => basicString (rest.length + 1) rest
  | '\'' :: '\'' :: '\'' :: rest =>
    let cs := dropLineEnd rest
    linesString '\'' false (cs.length + 1) cs
  | '\'' :: rest => literalString rest
  | _ => none

end Snapshots.Toml
