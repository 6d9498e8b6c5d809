import Snapshots.Number.Binary64
import Snapshots.Text.Decimal

/-! # Shortest decimal text

The fewest decimal digits that read back as the same double-precision number; among those of
the least count, the nearest to it.
-/

namespace Snapshots.Number

open Text

/-- The decimal number `digits * 10 ^ exponent`. -/
structure Decimal where
  digits : Nat
  exponent : Int
  deriving DecidableEq, Repr

namespace Binary64

/-- Whether a decimal rounds to the number, and how far it is from it. The end points count if
the mantissa is even. -/
def distance? (x : Binary64) (d : Decimal) : Option Nat :=
  let (num, den) := x.ratio
  let (a, b) := if d.exponent < 0 then (d.digits, Nat.pow 10 d.exponent.natAbs)
    else (d.digits * Nat.pow 10 d.exponent.natAbs, 1)
  let (ulp, ulpDen) := if x.exponent < 0 then (1, Nat.pow 2 x.exponent.natAbs)
    else (Nat.pow 2 x.exponent.natAbs, 1)
  let value := 4 * num * b * ulpDen
  let other := 4 * a * den * ulpDen
  let unit := 4 * ulp * den * b
  let below := if x.mantissa = Nat.pow 2 52 ∧ minExponent < x.exponent then unit / 4 else unit / 2
  let above := unit / 2
  let even := x.mantissa % 2 = 0
  let inside := if other ≤ value then
      value - other < below ∨ (even ∧ value - other = below)
    else other - value < above ∨ (even ∧ other - value = above)
  if inside then some (if other ≤ value then value - other else other - value) else none

/-- The neighbours of the number on the grid of a power of ten. -/
def neighbours (x : Binary64) (exponent : Int) : List Decimal :=
  let (num, den) := x.ratio
  let n := if exponent < 0 then num * Nat.pow 10 exponent.natAbs / den
    else num / (den * Nat.pow 10 exponent.natAbs)
  [⟨n, exponent⟩, ⟨n + 1, exponent⟩]

/-- The nearer of the neighbours that read back. -/
def onGrid? (x : Binary64) (exponent : Int) : Option Decimal :=
  match (x.neighbours exponent).filterMap fun d => (x.distance? d).map (d, ·) with
  | [] => none
  | [(d, _)] => some d
  | (d, m) :: (e, n) :: _ =>
    some (if m < n ∨ (m = n ∧ d.digits % 2 = 0) then d else e)

/-- The exponent of ten of the first digit, give or take one. -/
def magnitude (x : Binary64) : Int :=
  let (num, den) := x.ratio
  ((digits num).length : Int) - ((digits den).length : Int)

/-- The shortest decimal that reads back. The coarsest grid with a hit has no zero at its end. -/
def shortest (x : Binary64) : Decimal :=
  if x.mantissa = 0 then ⟨0, 0⟩
  else
    let top := x.magnitude + 1
    let grids := (List.range 22).map fun (k : Nat) => top - (k : Int)
    match grids.findSome? x.onGrid? with
    | some d => d
    | none => ⟨0, 0⟩

end Binary64

/-- How the digits of a number are set: positional between two exponents, else scientific. -/
structure FloatFormat where
  leastPositional : Int
  greatestPositional : Int
  exponentWidth : Nat

/-- The text of a number, without its sign. -/
def FloatFormat.render (f : FloatFormat) (d : Decimal) : List Char :=
  let ds := digits d.digits
  let lead : Int := d.exponent + ds.length - 1
  if d.digits = 0 then "0.0".toList
  else if f.leastPositional ≤ lead ∧ lead ≤ f.greatestPositional then
    if lead < 0 then "0.".toList ++ List.replicate (lead.natAbs - 1) '0' ++ ds
    else
      let whole := lead.toNat + 1
      let front := ds.take whole ++ List.replicate (whole - ds.length) '0'
      let back := ds.drop whole
      front ++ '.' :: (if back = [] then ['0'] else back)
  else
    let back := ds.drop 1
    ds.take 1 ++ (if back = [] then [] else '.' :: back) ++
      'e' :: (if lead < 0 then '-' else '+') :: padded f.exponentWidth lead.natAbs

end Snapshots.Number
