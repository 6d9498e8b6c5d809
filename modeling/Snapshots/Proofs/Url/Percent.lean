import Mathlib.Data.List.Basic
import Snapshots.Url.Percent

/-! # Reading escapes

What is escaped in a path reads as what was written, and a text reads as itself exactly if it has
no escape. Any escape makes it shorter.
-/

namespace Snapshots.Url

open Text

def utf8 (cs : List Char) : List UInt8 :=
  cs.flatMap String.utf8EncodeChar

def firstDigit? (cs : List Char) : Option Nat :=
  cs.head?.bind hexValue?

/-- Whether a text starts with two hexadecimal digits. -/
def hexAhead (cs : List Char) : Bool :=
  (firstDigit? cs).isSome && (firstDigit? cs.tail).isSome

def hasEscape : List Char → Bool
  | [] => false
  | c :: cs => (c = '%' && hexAhead cs) || hasEscape cs

variable {cs ds : List Char} {c : Char}

/-! ### Octets -/

@[simp] theorem utf8_nil : utf8 [] = [] := rfl

@[simp] theorem utf8_cons (c : Char) (cs : List Char) :
    utf8 (c :: cs) = String.utf8EncodeChar c ++ utf8 cs := rfl

@[simp] theorem utf8_append (cs ds : List Char) : utf8 (cs ++ ds) = utf8 cs ++ utf8 ds :=
  List.flatMap_append

theorem length_utf8EncodeChar_pos (c : Char) : 0 < (String.utf8EncodeChar c).length := by
  rw [String.length_utf8EncodeChar]
  exact Char.utf8Size_pos c

theorem eq_or_length_utf8_lt (h : cs.Sublist ds) :
    cs = ds ∨ (utf8 cs).length < (utf8 ds).length := by
  induction h with
  | slnil => exact .inl rfl
  | cons c _ ih =>
    have hpos := length_utf8EncodeChar_pos c
    right
    rcases ih with rfl | ih <;> simp only [utf8_cons, List.length_append] <;> omega
  | cons_cons c _ ih =>
    rcases ih with rfl | ih
    · exact .inl rfl
    · right
      simpa using ih

theorem length_utf8_le (h : cs.Sublist ds) : (utf8 cs).length ≤ (utf8 ds).length := by
  rcases eq_or_length_utf8_lt h with rfl | h <;> omega

theorem utf8_injective : Function.Injective utf8 := by
  intro cs ds h
  have hbytes : cs.utf8Encode = ds.utf8Encode := congrArg List.toByteArray h
  have hread := congrArg ByteArray.utf8Decode? hbytes
  rw [List.utf8Decode?_utf8Encode, List.utf8Decode?_utf8Encode] at hread
  simpa using hread

/-! ### Reading a character -/

theorem hexAhead_iff : hexAhead cs = true ↔
    ∃ a b rest x y, cs = a :: b :: rest ∧ hexValue? a = some x ∧ hexValue? b = some y := by
  constructor
  · intro h
    match cs with
    | [] => cases h
    | [a] => simp [hexAhead, firstDigit?] at h
    | a :: b :: rest =>
      obtain ⟨ha, hb⟩ := Bool.and_eq_true_iff.1 h
      obtain ⟨x, hx⟩ := Option.isSome_iff_exists.1 ha
      obtain ⟨y, hy⟩ := Option.isSome_iff_exists.1 hb
      exact ⟨a, b, rest, x, y, rfl, hx, hy⟩
  · rintro ⟨a, b, rest, x, y, rfl, ha, hb⟩
    simp [hexAhead, firstDigit?, ha, hb]

theorem decode_digits {a b : Char} {x y : Nat} (ha : hexValue? a = some x)
    (hb : hexValue? b = some y) (cs : List Char) :
    decode ('%' :: a :: b :: cs) = UInt8.ofNat (x * 16 + y) :: decode cs := by
  rw [decode, ha, hb]

theorem decode_percent (h : hexAhead cs = false) : decode ('%' :: cs) = 0x25 :: decode cs := by
  rw [decode.eq_def]
  split
  case h_1 heq => cases heq
  case h_2 a b rest heq =>
    cases heq
    split
    · rename_i x y hx hy
      exact absurd (hexAhead_iff.2 ⟨a, b, rest, x, y, rfl, hx, hy⟩) (by simp [h])
    · rfl
  case h_3 heq =>
    cases heq
    rfl

theorem decode_cons (h : c ≠ '%') (cs : List Char) :
    decode (c :: cs) = String.utf8EncodeChar c ++ decode cs := by
  rw [decode.eq_3]
  rintro a b rest rfl
  exact absurd rfl h

/-- Every text is read from its start: an escape, a percent sign for itself or another character. -/
theorem reading_induction {motive : List Char → Prop} (nil : motive [])
    (escape : ∀ a b x y cs, hexValue? a = some x → hexValue? b = some y → motive cs →
      motive ('%' :: a :: b :: cs))
    (percent : ∀ cs, hexAhead cs = false → motive cs → motive ('%' :: cs))
    (other : ∀ c cs, c ≠ '%' → motive cs → motive (c :: cs)) (cs : List Char) : motive cs := by
  induction cs using decode.induct with
  | case1 => exact nil
  | case2 a b cs x y hx hy ih => exact escape a b x y cs hy hx ih
  | case3 a b cs hno ih =>
    apply percent _ _ ih
    rw [Bool.eq_false_iff]
    intro h
    obtain ⟨_, _, _, x, y, ⟨⟩, hx, hy⟩ := hexAhead_iff.1 h
    exact hno x y hx hy
  | case4 c cs hno ih =>
    by_cases hc : c = '%'
    · subst hc
      apply percent _ _ ih
      rw [Bool.eq_false_iff]
      intro h
      obtain ⟨a, b, rest, _, _, hcs, _⟩ := hexAhead_iff.1 h
      exact hno a b rest rfl hcs
    · exact other c cs hc ih

/-! ### Texts without escapes -/

theorem decode_cases (cs : List Char) :
    (hasEscape cs = false ∧ decode cs = utf8 cs) ∨
      (hasEscape cs = true ∧ (decode cs).length < (utf8 cs).length) := by
  induction cs using reading_induction with
  | nil => exact .inl ⟨rfl, rfl⟩
  | escape a b x y cs ha hb ih =>
    have hahead : hexAhead (a :: b :: cs) = true := hexAhead_iff.2 ⟨a, b, cs, x, y, rfl, ha, hb⟩
    right
    constructor
    · simp [hasEscape, hahead]
    · have hpercent := length_utf8EncodeChar_pos '%'
      have ha' := length_utf8EncodeChar_pos a
      have hle : (decode cs).length ≤ (utf8 cs).length := by
        rcases ih with ⟨-, ih⟩ | ⟨-, ih⟩
        · simp [ih]
        · omega
      simp only [decode_digits ha hb, utf8_cons, List.length_append, List.length_cons]
      omega
  | percent cs hahead ih =>
    have hoctet : String.utf8EncodeChar '%' = [0x25] := rfl
    simpa [hasEscape, hahead, decode_percent hahead, hoctet] using ih
  | other c cs hc ih => simpa [hasEscape, decode_cons hc, hc] using ih

theorem decode_eq_utf8 (h : hasEscape cs = false) : decode cs = utf8 cs := by
  rcases decode_cases cs with ⟨-, hread⟩ | ⟨hescape, -⟩
  · exact hread
  · simp [h] at hescape

/-! ### Texts with characters escaped -/

theorem hexValue?_upperHexDigit {n : Nat} (h : n < 16) : hexValue? (upperHexDigit n) = some n := by
  decide +revert

theorem decode_escaped (b : UInt8) (cs : List Char) :
    decode (escaped b ++ cs) = b :: decode cs := by
  have hb := b.toNat_lt
  have hhigh := hexValue?_upperHexDigit (n := b.toNat / 16) (by omega)
  have hlow := hexValue?_upperHexDigit (n := b.toNat % 16) (by omega)
  have hvalue : b.toNat / 16 * 16 + b.toNat % 16 = b.toNat := by omega
  simp [escaped, decode_digits hhigh hlow, hvalue]

theorem decode_flatMap_escaped (bs : List UInt8) (cs : List Char) :
    decode (bs.flatMap escaped ++ cs) = bs ++ decode cs := by
  induction bs with
  | nil => rfl
  | cons b bs ih =>
    rw [List.flatMap_cons, List.append_assoc, decode_escaped, ih, List.cons_append]

theorem encodeChar_cases (escapes : Char → Bool) (c : Char) :
    encodeChar escapes c = [c] ∨ ∃ rest, encodeChar escapes c = '%' :: rest := by
  rw [encodeChar]
  split
  · exact .inl rfl
  · obtain ⟨b, bs, hb⟩ := List.exists_cons_of_ne_nil (String.utf8EncodeChar_ne_nil (c := c))
    exact .inr ⟨_, by rw [hb]; rfl⟩

theorem decode_encodeChar (hc : c ≠ '%') (escapes : Char → Bool) (cs : List Char) :
    decode (encodeChar escapes c ++ cs) = String.utf8EncodeChar c ++ decode cs := by
  rw [encodeChar]
  split
  · exact decode_cons hc cs
  · exact decode_flatMap_escaped _ cs

@[simp] theorem encode_nil (escapes : Char → Bool) : encode escapes [] = [] := rfl

@[simp] theorem encode_cons (escapes : Char → Bool) (c : Char) (cs : List Char) :
    encode escapes (c :: cs) = encodeChar escapes c ++ encode escapes cs := rfl

theorem hexValue?_range {x : Nat} (h : hexValue? c = some x) :
    0x30 ≤ c.toNat ∧ c.toNat ≤ 0x39 ∨ 0x41 ≤ c.toNat ∧ c.toNat ≤ 0x46 ∨
      0x61 ≤ c.toNat ∧ c.toNat ≤ 0x66 := by
  rw [hexValue?] at h
  split at h
  case isTrue hdigit =>
    left
    simpa [Char.isDigit, UInt32.le_iff_toNat_le] using hdigit
  split at h
  case isTrue hsmall => exact .inr (.inr hsmall)
  split at h
  case isTrue hcapital => exact .inr (.inl hcapital)
  cases h

theorem encodeChar_digit {x : Nat} (h : hexValue? c = some x) :
    encodeChar escapesInPath c = [c] := by
  have hrange := hexValue?_range h
  have hplain : c.toNat < 0x80 ∧ ¬ escapesInPath c := by
    simp only [escapesInPath, escapesInFragment, isControl, ← Char.toNat_inj, Char.reduceToNat,
      List.contains_eq_mem, List.mem_cons, List.not_mem_nil, or_false, Bool.decide_or,
      Bool.or_eq_true, decide_eq_true_eq, not_or, Char.not_lt, Char.le_def, Char.reduceVal,
      UInt32.le_iff_toNat_le, UInt32.reduceToNat, Char.toNat_val]
    omega
  rw [encodeChar, if_pos hplain]

theorem hexValue?_percent : hexValue? '%' = none := rfl

theorem encodeChar_percent : encodeChar escapesInPath '%' = ['%'] := rfl

theorem firstDigit?_encode (cs : List Char) :
    firstDigit? (encode escapesInPath cs) = firstDigit? cs := by
  cases cs with
  | nil => rfl
  | cons c cs =>
    rcases encodeChar_cases escapesInPath c with h | ⟨rest, h⟩
    · simp [firstDigit?, h]
    · -- A character that is written as an escape is no digit, and an escape starts with none.
      cases hc : hexValue? c with
      | none => simp [firstDigit?, h, hc, hexValue?_percent]
      | some x => simp [firstDigit?, encodeChar_digit hc]

theorem hexAhead_encode (cs : List Char) : hexAhead (encode escapesInPath cs) = hexAhead cs := by
  rw [hexAhead, hexAhead, firstDigit?_encode]
  cases hfirst : firstDigit? cs with
  | none => rfl
  | some x =>
    obtain ⟨c, hc, hx⟩ := Option.bind_eq_some_iff.1 hfirst
    obtain ⟨cs, rfl⟩ := List.head?_eq_some_iff.1 hc
    simp [encodeChar_digit hx, firstDigit?_encode]

/-- Reading forgets how a character is written. -/
theorem decode_encode (cs : List Char) : decode (encode escapesInPath cs) = decode cs := by
  induction cs using reading_induction with
  | nil => rfl
  | escape a b x y cs ha hb ih =>
    simp [encodeChar_percent, encodeChar_digit ha, encodeChar_digit hb, decode_digits ha hb, ih]
  | percent cs hahead ih =>
    have hahead' := (hexAhead_encode cs).trans hahead
    simp [encodeChar_percent, decode_percent hahead, decode_percent hahead', ih]
  | other c cs hc ih => rw [encode_cons, decode_encodeChar hc, decode_cons hc, ih]

end Snapshots.Url
