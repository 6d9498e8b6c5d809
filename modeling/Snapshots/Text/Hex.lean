import Snapshots.Text.Decimal

/-! # Hexadecimal digits

Values of hexadecimal digits, in either case, and digits for values, in upper case.
-/

namespace Snapshots.Text

def hexValue? (c : Char) : Option Nat :=
  if c.isDigit then some (digitValue c)
  else if 'a' ≤ c ∧ c ≤ 'f' then some (c.toNat - 'a'.toNat + 10)
  else if 'A' ≤ c ∧ c ≤ 'F' then some (c.toNat - 'A'.toNat + 10)
  else none

def upperHexDigit (n : Nat) : Char :=
  (Nat.digitChar n).toUpper

end Snapshots.Text
