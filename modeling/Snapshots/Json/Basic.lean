import Snapshots.Number.Shortest

/-! # JSON values

Values with the members of an object in the order of the text. A number is an integer of 64
bits or a double-precision number.
-/

namespace Snapshots

inductive Json.Number where
  | natural (n : Nat)
  /-- The integer `-n`. -/
  | negative (n : Nat)
  | binary (x : Number.Binary64)
  deriving DecidableEq, Repr

inductive Json where
  | null
  | bool (b : Bool)
  | number (n : Json.Number)
  | string (s : String)
  | array (items : List Json)
  | object (members : List (String × Json))
  deriving Inhabited

namespace Json

def nat (n : Nat) : Json :=
  .number (.natural n)

/-- An object without the members that have no value. -/
def record (members : List (String × Option Json)) : Json :=
  .object (members.filterMap fun (name, value) => value.map (name, ·))

def strings (ss : List String) : Json :=
  .array (ss.map .string)

def stringMap (pairs : List (String × String)) : Json :=
  .object (pairs.map fun (k, v) => (k, .string v))

def get? (name : String) : Json → Option Json
  | .object members => members.reverse.lookup name
  | _ => none

def string? : Json → Option String
  | .string s => some s
  | _ => none

def bool? : Json → Option Bool
  | .bool b => some b
  | _ => none

def nat? : Json → Option Nat
  | .number (.natural n) => some n
  | _ => none

def items? : Json → Option (List Json)
  | .array items => some items
  | _ => none

/-- How a double-precision number is shown: positional for exponents from -5 to 15. -/
def floatFormat : Snapshots.Number.FloatFormat := ⟨-5, 15, 2⟩

def Number.toText : Number → String
  | .natural n => toString n
  | .negative n => "-" ++ toString n
  | .binary x =>
    (if x.negative then "-" else "") ++ String.ofList (floatFormat.render x.shortest)

end Json

end Snapshots
