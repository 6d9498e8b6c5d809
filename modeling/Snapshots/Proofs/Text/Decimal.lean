import Mathlib.Algebra.Ring.Nat
import Snapshots.Text.Decimal
import Snapshots.Text.Hex

/-! # Digits read back

The digits of a number, with zeros in front or without, are read as the number again.
-/

namespace Snapshots.Text

theorem natOfDigits_eq (cs : List Char) : natOfDigits cs = Nat.ofDigitChars 10 cs 0 := by
  simp only [natOfDigits, Nat.ofDigitChars_eq_foldl, Nat.mul_comm 10]
  rfl

@[simp] theorem natOfDigits_padded (width n : Nat) : natOfDigits (padded width n) = n := by
  rw [natOfDigits_eq, padded, Nat.ofDigitChars_append, Nat.ofDigitChars_replicate_zero,
    Nat.mul_zero, digits, Nat.ofDigitChars_ten_toDigits]

theorem isDigit_of_mem_digits {n : Nat} {c : Char} (h : c ∈ digits n) : c.isDigit = true :=
  Nat.isDigit_of_mem_toDigits (by decide) (by decide) h

theorem isDigit_of_mem_padded {width n : Nat} {c : Char} (h : c ∈ padded width n) :
    c.isDigit = true := by
  rw [padded, List.mem_append] at h
  rcases h with h | h
  · rw [List.eq_of_mem_replicate h]
    rfl
  · exact isDigit_of_mem_digits h

theorem length_digits_pos (n : Nat) : 0 < (digits n).length :=
  Nat.length_toDigits_pos

theorem digits_inj {n k : Nat} (h : digits n = digits k) : n = k := by
  have hn : Nat.ofDigitChars 10 (digits n) 0 = n := Nat.ofDigitChars_ten_toDigits
  rw [← hn, h, digits, Nat.ofDigitChars_ten_toDigits]

theorem toList_toString {n : Int} (hn : 0 ≤ n) : (toString n).toList = digits n.toNat := by
  obtain ⟨k, rfl⟩ := Int.eq_ofNat_of_zero_le hn
  rw [Int.toNat_natCast]
  exact String.toList_ofList

theorem length_padded {width n : Nat} (hw : 0 < width) (hn : n < 10 ^ width) :
    (padded width n).length = width := by
  have h : (digits n).length ≤ width := (Nat.length_toDigits_le_iff (by decide) hw).2 hn
  simp only [padded, List.length_append, List.length_replicate]
  omega

theorem padded_ne_nil (width n : Nat) : padded width n ≠ [] := by
  intro h
  have hl := length_digits_pos n
  simp [List.append_eq_nil_iff.1 h] at hl

theorem natOfSigned?_plus (ds : List Char) : natOfSigned? ('+' :: ds) =
    if ds ≠ [] ∧ ds.all Char.isDigit then some (natOfDigits ds) else none :=
  rfl

theorem natOfSigned?_of_ne_plus {cs : List Char} (h : ∀ ds, cs ≠ '+' :: ds) : natOfSigned? cs =
    if cs ≠ [] ∧ cs.all Char.isDigit then some (natOfDigits cs) else none := by
  simp only [natOfSigned?]

theorem natOfSigned?_digits (n : Nat) : natOfSigned? (digits n) = some n := by
  have hdigits : (digits n).all Char.isDigit = true :=
    List.all_eq_true.2 fun _ => isDigit_of_mem_digits
  have hplus : ∀ ds, digits n ≠ '+' :: ds := by
    intro ds hds
    rw [hds] at hdigits
    cases hdigits
  rw [natOfSigned?_of_ne_plus hplus, if_pos ⟨Nat.toDigits_ne_nil, hdigits⟩, natOfDigits_eq, digits,
    Nat.ofDigitChars_ten_toDigits]

theorem hexValue?_digitChar : ∀ n < 16, hexValue? (Nat.digitChar n) = some n := by
  decide

end Snapshots.Text
