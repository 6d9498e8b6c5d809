/-! # Punycode

Labels of domain names with characters beyond ASCII are written in ASCII: first their ASCII
characters, then the places of the others as differences in base 36.
-/

namespace Snapshots.Url.Punycode

def digit (n : Nat) : Char :=
  if n < 26 then Char.ofNat ('a'.toNat + n) else Char.ofNat ('0'.toNat + (n - 26))

/-- The least value of a digit that is not the last. -/
def threshold (k bias : Nat) : Nat :=
  if k ≤ bias then 1 else if bias + 26 ≤ k then 26 else k - bias

def digits (bias k n : Nat) : List Char :=
  let t := threshold k bias
  if n < t then [digit n]
  else digit (t + (n - t) % (36 - t)) :: digits bias (k + 36) ((n - t) / (36 - t))
termination_by n
decreasing_by
  have h₁ : 1 ≤ threshold k bias := by
    unfold threshold
    split
    · omega
    · split <;> omega
  have h₂ : (n - threshold k bias) / (36 - threshold k bias) ≤ n - threshold k bias :=
    Nat.div_le_self _ _
  omega

/-- A large difference scaled down, and the bias that its size calls for. -/
def scaleDown (delta k : Nat) : Nat × Nat :=
  if 455 < delta then scaleDown (delta / 35) (k + 36) else (delta, k)
termination_by delta
decreasing_by exact Nat.div_lt_self (by omega) (by omega)

/-- The bias after a difference, given how many characters are written. -/
def adapt (delta written : Nat) (first : Bool) : Nat :=
  let delta := if first then delta / 700 else delta / 2
  let (delta, k) := scaleDown (delta + delta / written) 0
  k + 36 * delta / (delta + 38)

/-- What is written so far. -/
structure Draft where
  text : List Char := []
  delta : Nat := 0
  bias : Nat := 72
  written : Nat

def Draft.look (basic point : Nat) (d : Draft) (c : Char) : Draft :=
  if c.toNat < point then { d with delta := d.delta + 1 }
  else if c.toNat = point then
    { text := d.text ++ digits d.bias 36 d.delta
      delta := 0
      bias := adapt d.delta (d.written + 1) (d.written = basic)
      written := d.written + 1 }
  else d

/-- The draft after the places of a code point, the next one after some that is in the text. -/
def Draft.place (basic : Nat) (cs : List Char) : Draft × Nat → Nat → Draft × Nat
  | (d, last), point =>
    let d := { d with delta := d.delta + (point - last) * (d.written + 1) }
    let d := cs.foldl (Draft.look basic point) d
    ({ d with delta := d.delta + 1 }, point + 1)

/-- A label in ASCII, without its mark. -/
def encode (cs : List Char) : List Char :=
  let basic := cs.filter (·.toNat < 0x80)
  let points := ((cs.map Char.toNat).filter (0x80 ≤ ·)).mergeSort (· ≤ ·) |>.eraseReps
  let start : Draft := { written := basic.length }
  let (d, _) := points.foldl (Draft.place basic.length cs) (start, 0x80)
  basic ++ (if basic = [] then [] else ['-']) ++ d.text

end Snapshots.Url.Punycode
