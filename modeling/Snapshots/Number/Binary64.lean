/-! # Double-precision numbers

A finite double-precision number is an integer times a power of two. Ratios are rounded to the
nearest such number, a tie to the even one.
-/

namespace Snapshots.Number

/-- The number `mantissa * 2 ^ exponent`, with a sign that zero has too. -/
structure Binary64 where
  negative : Bool
  mantissa : Nat
  exponent : Int
  deriving DecidableEq, Repr, Inhabited

/-- The quotient rounded to the nearest integer, a tie to the even one. -/
def roundDiv (num den : Nat) : Nat :=
  let q := num / den
  let twice := 2 * (num % den)
  if den < twice ∨ (twice = den ∧ q % 2 = 1) then q + 1 else q

namespace Binary64

def minExponent : Int := -1074

def maxExponent : Int := 971

/-- A ratio in units of a power of two, rounded. -/
def scaled (num den : Nat) (exponent : Int) : Nat :=
  if exponent < 0 then roundDiv (num * Nat.pow 2 exponent.natAbs) den
  else roundDiv num (den * Nat.pow 2 exponent.natAbs)

/-- The number nearest to a ratio, none if that is beyond the greatest number. -/
def ofRatio? (num den : Nat) : Option Binary64 :=
  if num = 0 then some ⟨false, 0, 0⟩
  else
    let coarse : Int := (num.log2 : Int) - (den.log2 : Int) - 53
    let e := max minExponent coarse
    let fitted := [e, e + 1, e + 2].find? fun e => scaled num den e < Nat.pow 2 53
    match fitted with
    | some e => if e ≤ maxExponent then some ⟨false, scaled num den e, e⟩ else none
    | none => none

def ratio (x : Binary64) : Nat × Nat :=
  if x.exponent < 0 then (x.mantissa, Nat.pow 2 x.exponent.natAbs)
  else (x.mantissa * Nat.pow 2 x.exponent.natAbs, 1)

def mul? (x y : Binary64) : Option Binary64 :=
  let (a, b) := x.ratio
  let (c, d) := y.ratio
  ofRatio? (a * c) (b * d)

def div? (x y : Binary64) : Option Binary64 :=
  let (a, b) := x.ratio
  let (c, d) := y.ratio
  ofRatio? (a * d) (b * c)

def ofNat? (n : Nat) : Option Binary64 :=
  ofRatio? n 1

end Binary64

end Snapshots.Number
