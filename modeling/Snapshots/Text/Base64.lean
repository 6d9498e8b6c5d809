/-! # Base 64

Octets written with 64 characters, four for every three octets, filled up with equals signs.
-/

namespace Snapshots.Text

def base64Value? (c : Char) : Option Nat :=
  if 'A' ≤ c ∧ c ≤ 'Z' then some (c.toNat - 'A'.toNat)
  else if 'a' ≤ c ∧ c ≤ 'z' then some (c.toNat - 'a'.toNat + 26)
  else if '0' ≤ c ∧ c ≤ '9' then some (c.toNat - '0'.toNat + 52)
  else if c = '+' then some 62
  else if c = '/' then some 63
  else none

def octetsOfBase64? : List Char → Option (List UInt8)
  | [] => some []
  | [a, b, '=', '='] => do
    let x ← base64Value? a
    let y ← base64Value? b
    some [.ofNat (x * 4 + y / 16)]
  | [a, b, c, '='] => do
    let x ← base64Value? a
    let y ← base64Value? b
    let z ← base64Value? c
    some [.ofNat (x * 4 + y / 16), .ofNat (y % 16 * 16 + z / 4)]
  | a :: b :: c :: d :: rest => do
    let x ← base64Value? a
    let y ← base64Value? b
    let z ← base64Value? c
    let w ← base64Value? d
    let octets ← octetsOfBase64? rest
    some (.ofNat (x * 4 + y / 16) :: .ofNat (y % 16 * 16 + z / 4) :: .ofNat (z % 4 * 64 + w) ::
      octets)
  | _ => none

end Snapshots.Text
