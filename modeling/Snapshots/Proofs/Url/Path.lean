import Snapshots.Proofs.Url.Percent
import Snapshots.Url.Basic

/-! # Segments and dots

A path is split at its slashes, and dots in it are resolved. Every step keeps the octets that the
path stands for, or leaves fewer.
-/

namespace Snapshots.Url

open Text

variable {c d : Char} {cs seg : List Char} {segs names : List (List Char)} {p : Char → Bool}

/-! ### Dots -/

theorem toNat_toLower (c : Char) :
    c.toLower.toNat = if 0x41 ≤ c.toNat ∧ c.toNat ≤ 0x5a then c.toNat + 0x20 else c.toNat := by
  have hrange : (c.val ≥ 'A'.val ∧ c.val ≤ 'Z'.val) ↔ 0x41 ≤ c.toNat ∧ c.toNat ≤ 0x5a := by
    rw [ge_iff_le, UInt32.le_iff_toNat_le, UInt32.le_iff_toNat_le]
    rfl
  by_cases h : c.val ≥ 'A'.val ∧ c.val ≤ 'Z'.val
  · have hlower : c.toLower.val = c.val + 0x20 := congrArg Char.val (dif_pos h)
    have hsmall : c.val.toNat + 0x20 < 2 ^ 32 := by
      have hle : c.val.toNat ≤ 0x5a := (hrange.1 h).2
      omega
    rw [if_pos (hrange.1 h)]
    exact (congrArg UInt32.toNat hlower).trans
      ((UInt32.toNat_add c.val 0x20).trans (Nat.mod_eq_of_lt hsmall))
  · have hlower : c.toLower = c := dif_neg h
    rw [if_neg (mt hrange.2 h), hlower]

theorem eq_of_toLower_eq (h : c.toLower = d) (hd : d.toNat < 0x61) : c = d := by
  have hcode := congrArg Char.toNat h
  rw [toNat_toLower] at hcode
  apply Char.toNat_inj.1
  split at hcode <;> omega

theorem hexValue?_of_toLower_eq (h : c.toLower = 'e') : hexValue? c = some 14 := by
  have hcode : c.toLower.toNat = 0x65 := congrArg Char.toNat h
  rw [toNat_toLower] at hcode
  have hletter : c = Char.ofNat 0x45 ∨ c = Char.ofNat 0x65 := by
    rw [← Char.toNat_inj, ← Char.toNat_inj]
    change c.toNat = 0x45 ∨ c.toNat = 0x65
    split at hcode <;> omega
  rcases hletter with rfl | rfl <;> rfl

/-- A dot, as it is or as an escape. -/
def WritesDot (cs : List Char) : Prop :=
  cs.map Char.toLower = ['.'] ∨ cs.map Char.toLower = ['%', '2', 'e']

theorem decode_append_of_writesDot (h : WritesDot cs) (ds : List Char) :
    decode (cs ++ ds) = 0x2e :: decode ds := by
  rcases h with h | h
  · obtain ⟨a, rfl, ha⟩ := List.map_eq_singleton_iff.1 h
    obtain rfl := eq_of_toLower_eq ha (by decide)
    exact decode_cons (by decide) ds
  · simp only [List.map_eq_cons_iff, List.map_eq_nil_iff] at h
    obtain ⟨a, _, rfl, ha, b, _, rfl, hb, c, _, rfl, hc, rfl⟩ := h
    obtain rfl := eq_of_toLower_eq ha (by decide)
    obtain rfl := eq_of_toLower_eq hb (by decide)
    exact decode_digits (x := 2) (by decide) (hexValue?_of_toLower_eq hc) ds

theorem isDot_iff : isDot seg = true ↔ WritesDot seg := by
  simp [isDot, WritesDot, ← String.toList_inj]

theorem isDotDot_iff :
    isDotDot seg = true ↔ ∃ cs ds, seg = cs ++ ds ∧ WritesDot cs ∧ WritesDot ds := by
  have hpairs : isDotDot seg = true ↔ ∃ a ∈ [['.'], ['%', '2', 'e']],
      ∃ b ∈ [['.'], ['%', '2', 'e']], seg.map Char.toLower = a ++ b := by
    simp [isDotDot, ← String.toList_inj, or_assoc]
  rw [hpairs]
  constructor
  · rintro ⟨a, ha, b, hb, h⟩
    obtain ⟨cs, ds, rfl, rfl, rfl⟩ := List.map_eq_append_iff.1 h
    exact ⟨cs, ds, rfl, by simpa [WritesDot] using ha, by simpa [WritesDot] using hb⟩
  · rintro ⟨cs, ds, rfl, hcs, hds⟩
    exact ⟨_, by simpa [WritesDot] using hcs, _, by simpa [WritesDot] using hds, List.map_append⟩

theorem decode_of_isDot (h : isDot seg = true) : decode seg = [0x2e] := by
  have hread := decode_append_of_writesDot (isDot_iff.1 h) []
  rwa [List.append_nil] at hread

theorem decode_of_isDotDot (h : isDotDot seg = true) : decode seg = [0x2e, 0x2e] := by
  obtain ⟨cs, ds, rfl, hcs, hds⟩ := isDotDot_iff.1 h
  have hread := decode_append_of_writesDot hds []
  rw [List.append_nil] at hread
  rw [decode_append_of_writesDot hcs, hread]
  rfl

/-! ### Splitting -/

theorem splitWhere_eq_splitOnP (p : Char → Bool) (cs : List Char) :
    splitWhere p cs = cs.splitOnP p := by
  induction cs with
  | nil => rw [splitWhere, List.splitOnP_nil]
  | cons c cs ih =>
    rw [splitWhere, List.splitOnP_cons_eq_if_modifyHead, ih]
    split
    · rfl
    · cases hpieces : cs.splitOnP p with
      | nil => exact absurd hpieces (List.splitOnP_ne_nil p cs)
      | cons piece pieces => rfl

theorem splitWhere_cons (h : p c = false) (cs : List Char) :
    ∃ piece pieces, splitWhere p cs = piece :: pieces ∧
      splitWhere p (c :: cs) = (c :: piece) :: pieces := by
  cases hpieces : splitWhere p cs with
  | nil =>
    rw [splitWhere_eq_splitOnP] at hpieces
    exact absurd hpieces (List.splitOnP_ne_nil p cs)
  | cons piece pieces => exact ⟨piece, pieces, rfl, by simp [splitWhere, h, hpieces]⟩

theorem not_separates_of_mem_splitWhere {piece : List Char} (h : piece ∈ splitWhere p cs) :
    ∀ c ∈ piece, p c = false := by
  induction cs generalizing piece with
  | nil => simp_all [splitWhere]
  | cons c cs ih =>
    by_cases hc : p c = true
    · rw [splitWhere, if_pos hc, List.mem_cons] at h
      rcases h with rfl | h
      · simp
      · exact ih h
    · obtain ⟨first, pieces, hcs, hsplit⟩ := splitWhere_cons (Bool.eq_false_iff.2 hc) cs
      rw [hsplit, List.mem_cons] at h
      rcases h with rfl | h
      · rw [List.forall_mem_cons]
        exact ⟨Bool.eq_false_iff.2 hc, ih (by simp [hcs])⟩
      · exact ih (by simp [hcs, h])

@[simp] theorem Path.text_nil : (Path.segments []).text = [] := rfl

@[simp] theorem Path.text_cons (name : List Char) (names : List (List Char)) :
    (Path.segments (name :: names)).text = '/' :: (name ++ (Path.segments names).text) := rfl

theorem length_utf8_text_cons (name : List Char) (names : List (List Char)) :
    (utf8 (Path.segments (name :: names)).text).length =
      (utf8 name).length + 1 + (utf8 (Path.segments names).text).length := by
  have hslash : String.utf8EncodeChar '/' = [0x2f] := rfl
  simp only [Path.text_cons, utf8_cons, utf8_append, hslash, List.length_append,
    List.length_singleton]
  omega

theorem splitWhere_text (hslash : p '/' = true) {name : List Char}
    (hname : ∀ c ∈ name, p c = false) (hnames : ∀ name ∈ names, ∀ c ∈ name, p c = false) :
    splitWhere p (name ++ (Path.segments names).text) = name :: names := by
  rw [splitWhere_eq_splitOnP]
  induction names generalizing name with
  | nil => simpa using List.splitOnP_eq_singleton hname
  | cons next names ih =>
    rw [List.forall_mem_cons] at hnames
    rw [Path.text_cons, List.splitOnP_append_cons_of_forall_mem hname _ hslash,
      ih hnames.1 hnames.2]

theorem length_utf8_splitWhere_le (p : Char → Bool) (cs : List Char) :
    (utf8 (Path.segments (splitWhere p cs)).text).length ≤ (utf8 cs).length + 1 := by
  induction cs with
  | nil => exact Nat.le_of_eq (length_utf8_text_cons [] [])
  | cons c cs ih =>
    by_cases hc : p c = true
    · have hpos := length_utf8EncodeChar_pos c
      simp only [splitWhere, if_pos hc, length_utf8_text_cons, utf8_nil, utf8_cons,
        List.length_append, List.length_nil]
      omega
    · obtain ⟨piece, pieces, hcs, hsplit⟩ := splitWhere_cons (Bool.eq_false_iff.2 hc) cs
      rw [hcs] at ih
      simp only [hsplit, length_utf8_text_cons, utf8_cons, List.length_append] at ih ⊢
      omega

/-! ### Weights -/

/-- The octets of a path whose segments are read, a slash in front of each. -/
def weight : List (List Char) → Nat
  | [] => 0
  | seg :: segs => (decode seg).length + 1 + weight segs

@[simp] theorem weight_nil : weight [] = 0 := rfl

@[simp] theorem weight_cons (seg : List Char) (segs : List (List Char)) :
    weight (seg :: segs) = (decode seg).length + 1 + weight segs := rfl

@[simp] theorem weight_append (segs segs' : List (List Char)) :
    weight (segs ++ segs') = weight segs + weight segs' := by
  induction segs with
  | nil => simp
  | cons seg segs ih =>
    rw [List.cons_append, weight_cons, weight_cons, ih]
    exact (Nat.add_assoc ..).symm

@[simp] theorem weight_reverse (segs : List (List Char)) : weight segs.reverse = weight segs := by
  induction segs with
  | nil => rfl
  | cons seg segs ih =>
    rw [List.reverse_cons, weight_append, weight_cons, weight_cons, weight_nil, ih]
    omega

theorem weight_drop_le (n : Nat) (segs : List (List Char)) :
    weight (segs.drop n) ≤ weight segs := by
  conv_rhs => rw [← List.take_append_drop n segs, weight_append]
  exact Nat.le_add_left ..

theorem weight_map_encode (segs : List (List Char)) :
    weight (segs.map (encode escapesInPath)) = weight segs := by
  induction segs with
  | nil => rfl
  | cons seg segs ih => rw [List.map_cons, weight_cons, weight_cons, decode_encode, ih]

theorem weight_cases (segs : List (List Char)) :
    ((∀ seg ∈ segs, hasEscape seg = false) ∧
        weight segs = (utf8 (Path.segments segs).text).length) ∨
      weight segs < (utf8 (Path.segments segs).text).length := by
  induction segs with
  | nil => simp
  | cons seg segs ih =>
    rw [weight_cons, length_utf8_text_cons, List.forall_mem_cons]
    rcases decode_cases seg with ⟨hseg, hread⟩ | ⟨-, hseg⟩
    · rcases ih with ⟨hsegs, ih⟩ | ih
      · left
        exact ⟨⟨hseg, hsegs⟩, by rw [hread]; omega⟩
      · right
        rw [hread]
        omega
    · right
      rcases ih with ⟨-, ih⟩ | ih <;> omega

/-! ### Resolving dots -/

def IsPlain (seg : List Char) : Prop :=
  isDot seg = false ∧ isDotDot seg = false

theorem weight_resolveFrom_le (taken segs : List (List Char)) :
    weight (resolveFrom taken segs) ≤ weight taken + weight segs := by
  fun_induction resolveFrom taken segs with
  | case1 taken => simp
  | case2 taken seg h =>
    have hdrop := weight_drop_le 1 taken
    simp only [weight_append, weight_reverse, weight_cons, weight_nil, decode, List.length_nil]
    omega
  | case5 taken seg segs _ h ih =>
    have hdrop := weight_drop_le 1 taken
    rw [weight_cons]
    omega
  | case3 taken seg h h' => simp [decode]
  | case4 taken seg h h' => simp
  | case6 taken seg segs _ h h' ih | case7 taken seg segs _ h h' ih =>
    simp only [weight_cons] at ih ⊢
    omega

theorem resolveFrom_of_plain (h : ∀ seg ∈ segs, IsPlain seg) (taken : List (List Char)) :
    resolveFrom taken segs = taken.reverse ++ segs := by
  fun_induction resolveFrom taken segs with
  | case1 taken => simp
  | case2 taken seg hdots | case5 taken seg segs _ hdots ih =>
    cases hdots.symm.trans (h seg List.mem_cons_self).2
  | case3 taken seg _ hdot | case6 taken seg segs _ _ hdot ih =>
    cases hdot.symm.trans (h seg List.mem_cons_self).1
  | case4 taken seg => rfl
  | case7 taken seg segs _ _ _ ih =>
    rw [ih (List.forall_mem_cons.1 h).2, List.reverse_cons, List.append_assoc,
      List.singleton_append]

theorem weight_resolveFrom_lt (h : ¬ ∀ seg ∈ segs, IsPlain seg) (taken : List (List Char)) :
    weight (resolveFrom taken segs) < weight taken + weight segs := by
  fun_induction resolveFrom taken segs with
  | case1 taken => simp at h
  | case2 taken seg hdots =>
    have hdrop := weight_drop_le 1 taken
    simp only [weight_append, weight_reverse, weight_cons, weight_nil, decode_of_isDotDot hdots,
      decode, List.length_cons, List.length_nil]
    omega
  | case3 taken seg _ hdot => simp [decode_of_isDot hdot, decode]
  | case4 taken seg hdots hdot =>
    rw [List.forall_mem_singleton] at h
    exact absurd ⟨Bool.eq_false_iff.2 hdot, Bool.eq_false_iff.2 hdots⟩ h
  | case5 taken seg segs _ hdots =>
    have hdrop := weight_drop_le 1 taken
    have hle := weight_resolveFrom_le (taken.drop 1) segs
    rw [weight_cons]
    omega
  | case6 taken seg segs _ _ hdot =>
    have hle := weight_resolveFrom_le taken segs
    rw [weight_cons]
    omega
  | case7 taken seg segs _ hdots hdot ih =>
    rw [List.forall_mem_cons] at h
    have hrest := ih fun hplain =>
      h ⟨⟨Bool.eq_false_iff.2 hdot, Bool.eq_false_iff.2 hdots⟩, hplain⟩
    rw [weight_cons] at hrest ⊢
    omega

end Snapshots.Url
