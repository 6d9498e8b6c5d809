import Mathlib.Data.List.Chain
import Snapshots.Proofs.Cron.Locality

/-! # Reading a field

A field that is written as a word is read from it, and nothing is left. Main statement:
`Grammar.field_written`.
-/

namespace Snapshots.Cron

open Text

/-- Neighbours that no item holds, as one ends with the first and one starts with the second. -/
def Adjoin (c d : Char) : Prop :=
  (isAtom c = true ∧ isAtom d = true) ∧ ¬ (c.isDigit = true ∧ d.isDigit = true) ∧
    ¬ (c.isAlpha = true ∧ d.isAlpha = true)

/-- A word in which no two fields adjoin, and which neither starts nor stops inside one. -/
structure Unbroken (t : List Char) : Prop where
  head : ∃ c ∈ t.head?, isConnector c = false
  last : ∃ c ∈ t.getLast?, isConnector c = false
  chain : t.IsChain fun c d => ¬ Adjoin c d

instance (c d : Char) : Decidable (Adjoin c d) :=
  inferInstanceAs (Decidable (_ ∧ _ ∧ _))

theorem unbroken_iff {t : List Char} :
    Unbroken t ↔ (t.head?.any fun c => !isConnector c) = true ∧
      (t.getLast?.any fun c => !isConnector c) = true ∧ t.IsChain fun c d => ¬ Adjoin c d := by
  simp only [Option.any_eq_true, Bool.not_eq_true']
  constructor
  · exact fun h => ⟨h.head, h.last, h.chain⟩
  · exact fun h => ⟨h.1, h.2.1, h.2.2⟩

instance (t : List Char) : Decidable (Unbroken t) :=
  decidable_of_iff' _ unbroken_iff

theorem not_isConnector {c : Char} (h : isAtom c = true) : isConnector c = false := by
  by_contra hc
  simp only [Bool.not_eq_false, isConnector, Bool.or_eq_true, decide_eq_true_eq] at hc
  rcases hc with (rfl | rfl) | rfl <;> revert h <;> decide

theorem Unbroken.append {u v : List Char} {d : Char} (hu : Unbroken u) (hv : Unbroken v)
    (hd : isConnector d = true) : Unbroken (u ++ d :: v) := by
  have hatom : isAtom d = false := by
    by_contra h
    rw [not_isConnector (by simpa using h)] at hd
    cases hd
  obtain ⟨c, hc, hhead⟩ := hu.head
  obtain ⟨e, he, hlast⟩ := hv.last
  obtain ⟨u, rfl⟩ := List.head?_eq_some_iff.1 hc
  refine ⟨⟨c, rfl, hhead⟩, ⟨e, ?_, hlast⟩, ?_⟩
  · rw [Option.mem_def] at he ⊢
    simp [List.getLast?_append, List.getLast?_cons, he]
  · refine List.isChain_append.2 ⟨hu.chain, List.isChain_cons.2 ⟨fun y _ h => ?_, hv.chain⟩, ?_⟩
    · simp [Adjoin, hatom] at h
    · rintro x - y hy h
      cases hy
      simp [Adjoin, hatom] at h

theorem unbroken_of_forall {q : Char → Bool} {t : List Char} (ht : t ≠ [])
    (hall : ∀ c ∈ t, q c = true) (hatom : ∀ c, q c = true → isAtom c = true)
    (hadjoin : ∀ c d, q c = true → q d = true → ¬ Adjoin c d) : Unbroken t := by
  constructor
  · exact ⟨t.head ht, List.head?_eq_some_head ht,
      not_isConnector (hatom _ (hall _ (List.head_mem ht)))⟩
  · exact ⟨t.getLast ht, List.getLast?_eq_some_getLast ht,
      not_isConnector (hatom _ (hall _ (List.getLast_mem ht)))⟩
  · refine (List.pairwise_of_forall_mem_list ?_).isChain
    exact fun c hc d hd => hadjoin c d (hall c hc) (hall d hd)

theorem Unbroken.ne_nil {t : List Char} (h : Unbroken t) : t ≠ [] := by
  obtain ⟨c, hc, -⟩ := h.head
  rintro rfl
  cases hc

theorem Unbroken.whole {t : List Char} (h : Unbroken t) (hgap : ∀ c ∈ t, isGap c = false) :
    Whole t := by
  obtain ⟨c, hc, hlast⟩ := h.last
  refine ⟨hgap, ?_⟩
  intro d hd
  rw [Option.mem_def] at hc hd
  rw [hc] at hd
  cases hd
  exact hlast

structure Solid (t : List Char) : Prop extends Unbroken t where
  chars : ∀ c ∈ t, isAtom c = true ∨ isConnector c = true

theorem Solid.append {u v : List Char} {d : Char} (hu : Solid u) (hv : Solid v)
    (hd : isConnector d = true) : Solid (u ++ d :: v) := by
  refine ⟨hu.toUnbroken.append hv.toUnbroken hd, ?_⟩
  intro c hc
  rcases List.mem_append.1 hc with hc | hc
  · exact hu.chars c hc
  · rcases List.mem_cons.1 hc with rfl | hc
    · exact .inr hd
    · exact hv.chars c hc

theorem Solid.whole {t : List Char} (h : Solid t) : t ≠ [] ∧ Whole t :=
  ⟨h.ne_nil, h.toUnbroken.whole fun c hc => not_isGap (h.chars c hc)⟩

theorem Numeral.solid {cs : List Char} {n : Nat} (h : Numeral cs n) : Solid cs := by
  have hatom : ∀ c : Char, c.isDigit = true → isAtom c = true := by
    simp +contextual [isAtom]
  refine ⟨unbroken_of_forall h.ne_nil h.digits hatom ?_, ?_⟩
  · rintro c d hc hd ⟨-, hdigit, -⟩
    exact hdigit ⟨hc, hd⟩
  · exact fun c hc => .inl (hatom c (h.digits c hc))

theorem Letters.solid {cs : List Char} (h : Letters cs) : Solid cs := by
  have hatom : ∀ c : Char, c.isAlpha = true → isAtom c = true := by
    simp +contextual [isAtom]
  refine ⟨unbroken_of_forall h.ne_nil h.letters hatom ?_, ?_⟩
  · rintro c d hc hd ⟨-, -, halpha⟩
    exact halpha ⟨hc, hd⟩
  · exact fun c hc => .inl (hatom c (h.letters c hc))

variable {anyMark : Bool} {cs : List Char}

theorem Range.Written.solid {r : Range} (h : r.Written anyMark cs) : Solid cs := by
  have hmark : ∀ c : Char, isAtom c = true → Solid [c] := by
    intro c hc
    have hends : ∃ d ∈ some c, isConnector d = false := ⟨c, rfl, not_isConnector hc⟩
    refine ⟨⟨hends, hends, List.isChain_singleton c⟩, ?_⟩
    simp [hc]
  cases h with
  | all => exact hmark '*' (by decide)
  | any => exact hmark '?' (by decide)
  | point hn => exact hn.solid
  | numbers hm hn => exact hm.solid.append hn.solid (by decide)
  | names ha hb => exact ha.solid.append hb.solid (by decide)

theorem Item.Written.solid {i : Item} (h : i.Written anyMark cs) : Solid cs := by
  cases h with
  | plain hr => exact hr.solid
  | stepped hr hk => exact hr.solid.append hk.solid (by decide)
  | named ha => exact ha.solid

theorem ItemsWritten.solid {items : List Item} (h : ItemsWritten anyMark items cs) : Solid cs := by
  induction h with
  | one hi => exact hi.solid
  | more hi _ ih => exact hi.solid.append ih (by decide)

namespace Grammar

variable {α : Type} {marks : List Char}

theorem run_all {q : Char → Bool} (hne : cs ≠ []) (hq : ∀ c ∈ cs, q c = true)
    (hgap : ∀ c ∈ cs, isGap c = false) : run q cs = some (cs, []) := by
  simp only [run, dropWhile_gapFree hgap, List.takeWhile_eq_self_iff.2 hq,
    List.dropWhile_eq_nil_iff.2 hq, if_neg hne, List.dropWhile_nil]

theorem run_cons {q : Char → Bool} {c : Char} (hc : q c = false) (hgap : isGap c = false)
    (cs : List Char) : run q (c :: cs) = none := by
  have hdrop : (c :: cs).dropWhile isGap = c :: cs := List.dropWhile_cons_of_neg (by simp [hgap])
  have htake : (c :: cs).takeWhile q = [] := List.takeWhile_cons_of_neg (by simp [hc])
  simp only [run, hdrop, htake, if_true]

theorem mark_cons_of_ne {c d : Char} (h : d ≠ c) (cs : List Char) : mark d (c :: cs) = none :=
  if_neg h

theorem number_of_run_none {cs : List Char} (h : run Char.isDigit cs = none) :
    number cs = none := by
  rw [number, h]
  rfl

theorem number_numeral {n : Nat} (h : Numeral cs n) : number cs = some (n, []) := by
  rw [number, run_all h.ne_nil h.digits h.solid.whole.2.gapFree]
  simp only [bind, Option.bind_some, h.value, if_pos h.small]

theorem name_letters (h : Letters cs) : name cs = some (cs, []) :=
  run_all h.ne_nil h.letters h.solid.whole.2.gapFree

theorem apart_of_connector {d : Char} (hd : isConnector d = true) (hn : d ∉ marks)
    (r : List Char) : Apart marks (d :: r) := by
  have hatom : isAtom d = false := by
    by_contra h
    rw [not_isConnector (by simpa using h)] at hd
    cases hd
  refine ⟨fun c hc => ?_, fun c hc => ?_⟩
  · cases hc
    simp only [isAtom, Bool.or_eq_false_iff] at hatom
    exact hatom.1.1
  · rw [List.dropWhile_cons_of_neg (by simp [not_isGap (.inr hd)])] at hc
    cases hc
    exact hn

theorem Local.append {rule : List Char → Option (α × List Char)} {a : α} {d : Char} {r : List Char}
    (hl : Local marks rule) (h : rule cs = some (a, [])) (hs : Solid cs)
    (hd : isConnector d = true) (hn : d ∉ marks) : rule (cs ++ d :: r) = some (a, d :: r) := by
  have hrel := hl cs (d :: r) hs.whole.1 hs.whole.2 (apart_of_connector hd hn r)
  rw [h] at hrel
  generalize rule (cs ++ d :: r) = y at hrel
  cases hrel with
  | @some _ y h =>
    obtain ⟨b, more⟩ := y
    obtain ⟨rfl, -, hmore | ⟨-, hmore⟩⟩ := h
    · exact congrArg (fun t => some (_, t)) hmore
    · rw [List.dropWhile_cons_of_neg (by simp [not_isGap (.inr hd)])] at hmore
      exact congrArg (fun t => some (_, t)) hmore

theorem range_of_head {c : Char} (hc : c ≠ '*') (hc' : c ≠ '?') (cs : List Char) :
    range anyMark (c :: cs) = (pair number .numbers (c :: cs)
      <|> (number (c :: cs)).map (fun (n, rest) => (.point n, rest))
      <|> pair name .names (c :: cs)) := by
  unfold range
  rw [mark_cons_of_ne hc'.symm, mark_cons_of_ne hc.symm]
  cases anyMark <;> rfl

theorem ne_mark_of_isDigit {c : Char} (h : c.isDigit = true) : c ≠ '*' ∧ c ≠ '?' := by
  constructor <;> rintro rfl <;> revert h <;> decide

theorem ne_mark_of_isAlpha {c : Char} (h : c.isAlpha = true) : c ≠ '*' ∧ c ≠ '?' := by
  constructor <;> rintro rfl <;> revert h <;> decide

theorem not_isDigit_of_isAlpha {c : Char} (h : c.isAlpha = true) : c.isDigit = false := by
  have hletter : (decide (c.val ≥ 'A'.val ∧ c.val ≤ 'Z'.val) ||
      (decide (c.val ≥ 'a'.val) && decide (c.val ≤ 'z'.val))) = true := h
  simp only [Char.isDigit, Bool.or_eq_true, Bool.and_eq_true, Bool.and_eq_false_iff,
    decide_eq_true_eq, decide_eq_false_iff_not, UInt32.le_iff_toNat_le, ge_iff_le] at *
  have h9 : '9'.val.toNat = 57 := rfl
  have hA : 'A'.val.toNat = 65 := rfl
  have ha : 'a'.val.toNat = 97 := rfl
  omega

theorem number_of_letter {c : Char} (hc : c.isAlpha = true) (cs : List Char) :
    number (c :: cs) = none := by
  have hgap : isGap c = false := not_isGap (.inl (by simp [isAtom, hc]))
  exact number_of_run_none (run_cons (not_isDigit_of_isAlpha hc) hgap cs)

theorem range_written {r : Range} (h : r.Written anyMark cs) : range anyMark cs = some (r, []) := by
  cases h with
  | all => cases anyMark <;> rfl
  | any hany =>
    subst hany
    rfl
  | point hn =>
    obtain ⟨c, cs, rfl⟩ := List.exists_cons_of_ne_nil hn.ne_nil
    obtain ⟨hstar, hquestion⟩ := ne_mark_of_isDigit (hn.digits c List.mem_cons_self)
    rw [range_of_head hstar hquestion, pair_eq, number_numeral hn]
    rfl
  | @numbers m n cs ds hm hn =>
    have hfirst : number (cs ++ '-' :: ds) = some (m, '-' :: ds) :=
      (local_number []).append (number_numeral hm) hm.solid (by decide) (by simp)
    obtain ⟨c, cs, rfl⟩ := List.exists_cons_of_ne_nil hm.ne_nil
    obtain ⟨hstar, hquestion⟩ := ne_mark_of_isDigit (hm.digits c List.mem_cons_self)
    rw [List.cons_append] at *
    rw [range_of_head hstar hquestion, pair_eq, hfirst, Option.bind_some, mark, if_pos rfl,
      Option.bind_some, number_numeral hn]
    rfl
  | @names cs ds ha hb =>
    have hfirst : name (cs ++ '-' :: ds) = some (cs, '-' :: ds) :=
      (local_name []).append (name_letters ha) ha.solid (by decide) (by simp)
    obtain ⟨c, cs, rfl⟩ := List.exists_cons_of_ne_nil ha.ne_nil
    have hc := ha.letters c List.mem_cons_self
    obtain ⟨hstar, hquestion⟩ := ne_mark_of_isAlpha hc
    have hnumber : number (c :: (cs ++ '-' :: ds)) = none :=
      number_of_letter hc _
    rw [List.cons_append] at *
    rw [range_of_head hstar hquestion, pair_eq, pair_eq, hnumber, hfirst, Option.bind_some, mark,
      if_pos rfl, Option.bind_some, name_letters hb]
    rfl

theorem item_written {i : Item} (h : i.Written anyMark cs) : item anyMark cs = some (i, []) := by
  cases h with
  | plain hr =>
    rw [item, stepped_eq, range_written hr]
    rfl
  | @stepped r cs k ds hr hk =>
    have hlocal : Local ['-'] (range anyMark) := local_range anyMark (by simp)
    have hfirst : range anyMark (cs ++ '/' :: ds) = some (r, '/' :: ds) :=
      hlocal.append (range_written hr) hr.solid (by decide) (by decide)
    rw [item, stepped_eq, hfirst, Option.bind_some, mark, if_pos rfl, Option.bind_some,
      number_numeral hk]
    rfl
  | named ha =>
    obtain ⟨c, cs, rfl⟩ := List.exists_cons_of_ne_nil ha.ne_nil
    have hc := ha.letters c List.mem_cons_self
    obtain ⟨hstar, hquestion⟩ := ne_mark_of_isAlpha hc
    have hnumber : number (c :: cs) = none :=
      number_of_letter hc _
    have hrange : range anyMark (c :: cs) = none := by
      rw [range_of_head hstar hquestion, pair_eq, pair_eq, hnumber, name_letters ha]
      rfl
    rw [item, stepped_eq, hrange, name_letters ha]
    rfl

theorem item_append {i : Item} (h : i.Written anyMark cs) (ds : List Char) :
    item anyMark (cs ++ ',' :: ds) = some (i, ',' :: ds) := by
  have hlocal : Local ['-', '/'] (item anyMark) := local_item anyMark (by simp) (by simp)
  exact hlocal.append (item_written h) h.solid (by decide) (by decide)

theorem comma_bind {rule : List Char → Option (α × List Char)} (cs : List Char) :
    (mark ',' (',' :: cs)).bind rule = rule cs :=
  rfl

theorem moreItems_written {items : List Item} (h : ItemsWritten anyMark items cs) {fuel : Nat}
    (hfuel : cs.length < fuel) : moreItems anyMark fuel (',' :: cs) = (items, []) := by
  induction h generalizing fuel with
  | one hi =>
    obtain ⟨fuel, rfl⟩ : ∃ k, fuel = k + 1 := ⟨fuel - 1, by omega⟩
    rw [moreItems_of_some fuel ((comma_bind _).trans (item_written hi)), moreItems_of_none fuel rfl]
  | @more i is cs ds hi his ih =>
    obtain ⟨fuel, rfl⟩ : ∃ k, fuel = k + 1 := ⟨fuel - 1, by omega⟩
    rw [List.length_append, List.length_cons] at hfuel
    rw [moreItems_of_some fuel ((comma_bind _).trans (item_append hi ds)), ih (by omega)]

/-- A field that is written as a word is read from it, and nothing is left. -/
theorem field_written {f : Field} {S : Set Nat} (h : FieldText f cs S) :
    ∃ v, field f cs = some (v, []) ∧ ∀ n, n ∈ v ↔ n ∈ S := by
  obtain ⟨items, spans, hitems, hspans, rfl⟩ := h.written
  obtain ⟨v, hv⟩ := Field.values?_isSome hspans
  have hvalues : ∀ n, n ∈ v ↔ ∃ s ∈ spans, n ∈ s.values := by
    obtain ⟨spans', hspans', hmem, -⟩ := Field.values?_spec hv
    rw [hspans] at hspans'
    cases hspans'
    exact hmem
  refine ⟨v, ?_, hvalues⟩
  rw [field_eq, dropWhile_gapFree hitems.solid.whole.2.gapFree]
  cases hitems with
  | one hi =>
    rw [item_written hi, Option.bind_some]
    simp only [moreItems, List.length_nil, hv]
    rfl
  | @more i is cs ds hi his =>
    rw [item_append hi, Option.bind_some, moreItems_written his (by simp), hv]
    rfl

end Grammar

end Snapshots.Cron
