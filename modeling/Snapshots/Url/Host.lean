import Snapshots.Files.Content
import Snapshots.Url.Percent
import Snapshots.Url.Punycode

/-! # Hosts

The host of a URL is a domain name, an address of version 4 or 6, or, for schemes that are not
special, any text. Addresses may be written in several ways and have one text.
-/

namespace Snapshots.Url

open Text

inductive Host where
  | domain (name : List Char)
  | address4 (n : Nat)
  /-- Eight numbers of sixteen bits. -/
  | address6 (pieces : List Nat)
  | plain (text : List Char)
  deriving DecidableEq, Repr

def splitWhere (p : Char → Bool) : List Char → List (List Char)
  | [] => [[]]
  | c :: cs =>
    if p c then [] :: splitWhere p cs
    else match splitWhere p cs with
      | [] => [[c]]
      | piece :: pieces => (c :: piece) :: pieces

def joinWith (sep : List Char) (pieces : List (List Char)) : List Char :=
  sep.intercalate pieces

/-! ### Version 4 -/

def inBase? (base : Nat) (cs : List Char) : Option Nat := do
  let ds ← cs.mapM hexValue?
  if ds.all (· < base) then some (ds.foldl (fun n d => n * base + d) 0) else none

/-- A part of an address in hexadecimal, octal or decimal. -/
def part4? : List Char → Option Nat
  | [] => none
  | '0' :: 'x' :: ds | '0' :: 'X' :: ds => inBase? 16 ds
  | '0' :: d :: ds => inBase? 8 (d :: ds)
  | ds => inBase? 10 ds

def dotted (cs : List Char) : List (List Char) :=
  let parts := splitWhere (· = '.') cs
  if 1 < parts.length ∧ parts.getLast? = some [] then parts.dropLast else parts

/-- Whether a name can only be an address, because its last part is a number. -/
def endsInNumber (cs : List Char) : Bool :=
  match (dotted cs).getLast? with
  | some last => (last ≠ [] && last.all Char.isDigit) || (part4? last).isSome
  | none => false

/-- The address that a name writes. The last part fills what the others leave. -/
def address4? (cs : List Char) : Option Nat := do
  let parts ← (dotted cs).mapM part4?
  let last ← parts.getLast?
  let first := parts.dropLast
  if 3 < first.length ∨ first.any (255 < ·) ∨ Nat.pow 256 (4 - first.length) ≤ last then none
  else
    let high := first.zipIdx.foldl (fun n (x, i) => n + x * Nat.pow 256 (3 - i)) 0
    some (high + last)

def text4 (n : Nat) : List Char :=
  joinWith ['.'] ([3, 2, 1, 0].map fun i => digits (n / Nat.pow 256 i % 256))

/-! ### Version 6 -/

/-- One piece of an address, at most four digits. -/
def piece6? (cs : List Char) : Option Nat :=
  if 1 ≤ cs.length ∧ cs.length ≤ 4 then inBase? 16 cs else none

/-- The two pieces of an address of version 4, written in decimal without leading zeros. -/
def embedded4? (cs : List Char) : Option (List Nat) := do
  let parts ← (splitWhere (· = '.') cs).mapM fun ds =>
    if ds = ['0'] ∨ (ds ≠ [] ∧ ds.head? ≠ some '0' ∧ ds.length ≤ 3 ∧ ds.all Char.isDigit) then
      some (natOfDigits ds)
    else none
  match parts with
  | [a, b, c, d] =>
    if parts.all (· ≤ 255) then some [a * 256 + b, c * 256 + d] else none
  | _ => none

def pieces6? (cs : List Char) : Option (List Nat) :=
  if cs = [] then some []
  else do
    let parts := splitWhere (· = ':') cs
    let first ← (parts.dropLast).mapM piece6?
    let last := parts.getLastD []
    let last ← if last.contains '.' then embedded4? last else (piece6? last).map ([·])
    some (first ++ last)

def splitDouble : List Char → Option (List Char × List Char)
  | ':' :: ':' :: rest => some ([], rest)
  | c :: rest => (splitDouble rest).map fun (a, b) => (c :: a, b)
  | [] => none

def address6? (cs : List Char) : Option (List Nat) :=
  match splitDouble cs with
  | none => do
    let ps ← pieces6? cs
    if ps.length = 8 then some ps else none
  | some (front, back) => do
    if front.contains '.' then none
    let a ← pieces6? front
    let b ← pieces6? back
    if a.length + b.length < 8 then
      some (a ++ List.replicate (8 - a.length - b.length) 0 ++ b)
    else none

def zeros (ps : List Nat) : Nat :=
  (ps.takeWhile (· = 0)).length

/-- Where the first longest run of two zeros or more starts, and its length. -/
def longestZeros? (ps : List Nat) : Option (Nat × Nat) :=
  (List.range ps.length).foldl (fun best i =>
    let n := zeros (ps.drop i)
    if 2 ≤ n ∧ best.all (·.2 < n) then some (i, n) else best) none

def text6 (ps : List Nat) : List Char :=
  let write (ps : List Nat) : List Char := joinWith [':'] (ps.map (Nat.toDigits 16))
  match longestZeros? ps with
  | none => write ps
  | some (i, n) => write (ps.take i) ++ [':', ':'] ++ write (ps.drop (i + n))

/-! ### Hosts of any kind -/

def isForbidden (c : Char) : Bool :=
  ['\x00', '\t', '\n', '\r', ' ', '#', '/', ':', '<', '>', '?', '@', '[', '\\', ']', '^',
    '|'].contains c

def isForbiddenInDomain (c : Char) : Bool :=
  isForbidden c || isControl c || c = '%'

/-- A label of a domain in small letters of ASCII. -/
def label (cs : List Char) : List Char :=
  let cs := cs.map Char.toLower
  if cs.all (·.toNat < 0x80) then cs else "xn--".toList ++ Punycode.encode cs

def specialHost? (cs : List Char) : Option Host := do
  match Content.ofOctets (decode cs) with
  | .octets _ => none
  | .text s =>
    let isDot (c : Char) : Bool := ['.', '\u3002', '\uff0e', '\uff61'].contains c
    let name := joinWith ['.'] ((splitWhere isDot s.toList).map label)
    if name = [] ∨ name.any isForbiddenInDomain then none
    else if endsInNumber name then (address4? name).map .address4
    else some (.domain name)

def Host.ofText? (special : Bool) (cs : List Char) : Option Host :=
  match cs with
  | '[' :: rest =>
    if rest.getLast? = some ']' then (address6? rest.dropLast).map .address6 else none
  | _ =>
    if special then specialHost? cs
    else if cs.any isForbidden then none
    else some (.plain (encode isControl cs))

def Host.text : Host → List Char
  | domain name => name
  | address4 n => text4 n
  | address6 ps => ['['] ++ text6 ps ++ [']']
  | plain text => text

end Snapshots.Url
