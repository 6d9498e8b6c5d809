/-! # Content of files

A file holds text, or octets that are no text in UTF-8. Octets are read as characters as far
as they form some.
-/

namespace Snapshots

inductive Content where
  | text (s : String)
  | octets (bs : List UInt8)
  deriving DecidableEq, Repr, Inhabited

namespace Content

def text? : Content → Option String
  | .text s => some s
  | .octets _ => none

/-- Whether an octet goes on with a character. -/
def isTail (b : UInt8) : Bool :=
  0x80 ≤ b && b < 0xC0

/-- The bits that an octet adds to a character. -/
def tailBits (b : UInt8) : Nat :=
  b.toNat % 64

/-- The character at the start of some octets, and how many octets it takes. -/
def firstChar? : List UInt8 → Option (Char × Nat)
  | a :: rest =>
    if a < 0x80 then some (Char.ofNat a.toNat, 1)
    else match rest with
      | b :: rest =>
        if ¬ isTail b then none
        else if 0xC2 ≤ a && a < 0xE0 then
          some (Char.ofNat (a.toNat % 32 * 64 + tailBits b), 2)
        else match rest with
          | c :: rest =>
            if ¬ isTail c then none
            else if 0xE0 ≤ a && a < 0xF0 then
              if (a = 0xE0 && b < 0xA0) || (a = 0xED && 0xA0 ≤ b) then none
              else some (Char.ofNat ((a.toNat % 16 * 64 + tailBits b) * 64 + tailBits c), 3)
            else match rest with
              | d :: _ =>
                if ¬ isTail d then none
                else if 0xF0 ≤ a && a < 0xF5 then
                  if (a = 0xF0 && b < 0x90) || (a = 0xF4 && 0x90 ≤ b) then none
                  else some (Char.ofNat
                    (((a.toNat % 8 * 64 + tailBits b) * 64 + tailBits c) * 64 + tailBits d), 4)
                else none
              | [] => none
          | [] => none
      | [] => none
  | [] => none

/-- The characters of some octets, with nothing in the place of an octet that belongs to none. -/
def charsOf : Nat → List UInt8 → List (Option Char)
  | 0, _ => []
  | _ + 1, [] => []
  | fuel + 1, b :: bs =>
    match firstChar? (b :: bs) with
    | some (c, n) => some c :: charsOf fuel (bs.drop (n - 1))
    | none => none :: charsOf fuel bs

def ofOctets (bs : List UInt8) : Content :=
  match (charsOf bs.length bs).mapM id with
  | some cs => .text (String.ofList cs)
  | none => .octets bs

end Content

end Snapshots
