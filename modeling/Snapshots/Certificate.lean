import Snapshots.Text.Base64
import Snapshots.Text.Blank

/-! # Certificates

A certificate is given as text: a block of base 64 between two marks, with any other text in front.
The octets of the block have to have the outline of a certificate.
-/

namespace Snapshots.Certificate

open Text

/-! ### Outline of the octets -/

def tagged? : List UInt8 → Option (Nat × List UInt8 × List UInt8)
  | tag :: size :: rest =>
    let cut (n : Nat) (rest : List UInt8) : Option (Nat × List UInt8 × List UInt8) :=
      if n ≤ rest.length then some (tag.toNat, rest.take n, rest.drop n) else none
    if size < 0x80 then cut size.toNat rest
    else
      let count := size.toNat - 0x80
      if count = 0 ∨ 4 < count ∨ rest.length < count then none
      else cut ((rest.take count).foldl (fun n b => n * 256 + b.toNat) 0) (rest.drop count)
  | _ => none

def parts? : Nat → List UInt8 → Option (List (Nat × List UInt8))
  | _, [] => some []
  | 0, _ => none
  | fuel + 1, octets => do
    let (tag, content, rest) ← tagged? octets
    let more ← parts? fuel rest
    some ((tag, content) :: more)

/-- The tags of what a certificate says, without the version in front. -/
def bodyTags : List Nat := [0x02, 0x30, 0x30, 0x30, 0x30, 0x30]

/-- The tags of what may follow: two identifiers and the extensions. -/
def extraTags : List Nat := [0xA1, 0x81, 0xA2, 0x82, 0xA3]

def isBody (tags : List Nat) : Bool :=
  let tags := if tags.head? = some 0xA0 then tags.drop 1 else tags
  tags.take 6 = bodyTags && (tags.drop 6).all extraTags.contains

/-- Whether octets start with a certificate: what it says, an algorithm and a signature. -/
def isCertificate (octets : List UInt8) : Bool :=
  match tagged? octets with
  | some (0x30, content, _) =>
    match parts? content.length content with
    | some [(0x30, body), (0x30, _), (0x03, _)] =>
      (parts? body.length body).any fun parts => isBody (parts.map (·.1))
    | _ => false
  | _ => false

/-! ### Blocks of a text -/

def lines (cs : List Char) : List (List Char) :=
  ((String.ofList cs).splitOn "\n").map fun l => dropEndWhile (· ≤ ' ') l.toList

def markName? (word : String) (line : List Char) : Option (List Char) :=
  let front := ("-----" ++ word ++ " ").toList
  let back := "-----".toList
  if front.isPrefixOf line ∧ back.isSuffixOf (line.drop front.length) then
    some ((line.drop front.length).take (line.length - front.length - back.length))
  else none

/-- The lines up to the mark that ends a block of a name, and the lines behind it. -/
def blockLines? (name : List Char) :
    List (List Char) → Option (List (List Char) × List (List Char))
  | [] => none
  | line :: rest =>
    if "-----END ".toList.isPrefixOf line then
      if markName? "END" line = some name then some ([], rest) else none
    else do
      let (block, rest) ← blockLines? name rest
      some (line :: block, rest)

/-- The octets of the first block of a certificate. Blocks of other names are passed over if they
are in order. -/
def octetsOf? : Nat → List (List Char) → Option (List UInt8)
  | 0, _ => none
  | fuel + 1, ls => do
    let behind := ls.dropWhile fun l => (markName? "BEGIN" l).isNone
    let mark ← behind.head?
    let name ← markName? "BEGIN" mark
    let (block, rest) ← blockLines? name (behind.drop 1)
    let block := if block.head? = some [] then block.drop 1 else block
    if block.any (· = []) then none
    let octets ← octetsOfBase64? (block.flatten.filter fun c => ¬ isBlank c)
    if ["CERTIFICATE", "X509 CERTIFICATE", "TRUSTED CERTIFICATE"].contains (String.ofList name) then
      some octets
    else octetsOf? fuel rest

def isIn (s : String) : Bool :=
  let ls := lines s.toList
  (octetsOf? (ls.length + 1) ls).any isCertificate

end Snapshots.Certificate
