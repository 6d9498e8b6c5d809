/-! # Decimal digits

Natural numbers as decimal text of a least width, and digits read back as a number.
-/

namespace Snapshots.Text

def digits (n : Nat) : List Char :=
  Nat.toDigits 10 n

/-- The digits with zeros in front, up to a width. -/
def padded (width n : Nat) : List Char :=
  let ds := digits n
  List.replicate (width - ds.length) '0' ++ ds

def digitValue (c : Char) : Nat :=
  c.toNat - '0'.toNat

/-- The number that digits write, most significant first. -/
def natOfDigits (cs : List Char) : Nat :=
  cs.foldl (fun n c => n * 10 + digitValue c) 0

/-- The number that a text of digits writes, after at most one plus sign. -/
def natOfSigned? (cs : List Char) : Option Nat :=
  let ds := match cs with
    | '+' :: rest => rest
    | _ => cs
  if ds ≠ [] ∧ ds.all Char.isDigit then some (natOfDigits ds) else none

end Snapshots.Text
