import Snapshots.Text.Hex

/-! # Percent encoding

Characters that a part of a URL cannot hold are written as their octets in UTF-8, each as a percent
sign and two hexadecimal digits.
-/

namespace Snapshots.Url

open Text

def escaped (b : UInt8) : List Char :=
  ['%', upperHexDigit (b.toNat / 16), upperHexDigit (b.toNat % 16)]

/-- A character, escaped if it is not in ASCII or belongs to a class. -/
def encodeChar (escapes : Char → Bool) (c : Char) : List Char :=
  if c.toNat < 0x80 ∧ ¬ escapes c then [c] else (String.utf8EncodeChar c).flatMap escaped

def encode (escapes : Char → Bool) (cs : List Char) : List Char :=
  cs.flatMap (encodeChar escapes)

/-- The octets that a text with escapes stands for. A percent sign without two hexadecimal digits
stands for itself. -/
def decode : List Char → List UInt8
  | [] => []
  | '%' :: a :: b :: rest =>
    match hexValue? a, hexValue? b with
    | some x, some y => UInt8.ofNat (x * 16 + y) :: decode rest
    | _, _ => 0x25 :: decode (a :: b :: rest)
  | c :: rest => String.utf8EncodeChar c ++ decode rest

def isControl (c : Char) : Bool :=
  c < ' ' || c = '\x7f'

def escapesInFragment (c : Char) : Bool :=
  isControl c || [' ', '"', '<', '>', '`'].contains c

/-- What is escaped in a segment of a path. -/
def escapesInPath (c : Char) : Bool :=
  escapesInFragment c || ['#', '?', '{', '}'].contains c

def escapesInQuery (special : Bool) (c : Char) : Bool :=
  isControl c || [' ', '"', '#', '<', '>'].contains c || (special && c = '\'')

end Snapshots.Url
