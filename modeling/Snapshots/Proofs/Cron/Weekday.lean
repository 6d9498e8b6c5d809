import Mathlib.Data.Set.Image
import Snapshots.Proofs.Cron.Renumber

/-! # Days of the week, renumbered

A renumbered field stands for the days that the field stands for, each under the number that the
grammar has for it, and there is always such a day if it stands for anything.
-/

namespace Snapshots.Cron

open Text

variable {f : Field} {cs : List Char} {S T : Set Nat}

theorem FieldText.unique (h : FieldText f cs S) (h' : FieldText f cs T) : S = T := by
  obtain ⟨v, hv, hS⟩ := Grammar.field_written h
  obtain ⟨w, hw, hT⟩ := Grammar.field_written h'
  cases hv.symm.trans hw
  ext n
  rw [← hS, hT]

theorem ItemText.limits (h : ItemText f cs S) : ∀ n ∈ S, f.low ≤ n ∧ n ≤ f.high := by
  obtain ⟨i, s, -, hs, rfl⟩ := h.written
  obtain ⟨hlow, hhigh⟩ := Item.span?_limits hs
  intro n hn
  rw [show s = ⟨s.first, s.last, s.step⟩ from rfl, Span.values_eq] at hn
  exact ⟨hlow.trans hn.1.1, hn.1.2.trans hhigh⟩

theorem Numeral.not_mem {n : Nat} (h : Numeral cs n) {c : Char} (hc : c.isDigit = false) :
    c ∉ cs := by
  intro hmem
  rw [h.digits c hmem] at hc
  cases hc

theorem Letters.not_mem (h : Letters cs) {c : Char} (hc : c.isAlpha = false) : c ∉ cs := by
  intro hmem
  rw [h.letters c hmem] at hc
  cases hc

theorem Range.Written.comma_not_mem {anyMark : Bool} {r : Range} (h : r.Written anyMark cs) :
    ',' ∉ cs := by
  cases h with
  | all => decide
  | any => decide
  | point hn => exact hn.not_mem (by decide)
  | numbers hm hn =>
    simp [hm.not_mem (show ','.isDigit = false by decide),
      hn.not_mem (show ','.isDigit = false by decide)]
  | names hm hn =>
    simp [hm.not_mem (show ','.isAlpha = false by decide),
      hn.not_mem (show ','.isAlpha = false by decide)]

theorem ItemText.comma_not_mem (h : ItemText f cs S) : ',' ∉ cs := by
  obtain ⟨i, s, hi, -⟩ := h.written
  cases hi with
  | plain hr => exact hr.comma_not_mem
  | stepped hr hk => simp [hr.comma_not_mem, hk.not_mem (show ','.isDigit = false by decide)]
  | named hcs => exact hcs.not_mem (by decide)

/-- Items, one after another, with all that they stand for. -/
inductive Listed (R : List Char → Set Nat → Prop) : List (List Char) → Set Nat → Prop
  | nil : Listed R [] ∅
  | cons {item items S T} : R item S → Listed R items T → Listed R (item :: items) (S ∪ T)

namespace Listed

variable {R : List Char → Set Nat → Prop} {item : List Char} {items more : List (List Char)}

theorem nil_iff : Listed R [] S ↔ S = ∅ := by
  constructor
  · intro h
    cases h
    rfl
  · rintro rfl
    exact .nil

theorem cons_iff :
    Listed R (item :: items) S ↔ ∃ A B, R item A ∧ Listed R items B ∧ S = A ∪ B := by
  constructor
  · intro h
    cases h with
    | cons hA hB => exact ⟨_, _, hA, hB, rfl⟩
  · rintro ⟨A, B, hA, hB, rfl⟩
    exact .cons hA hB

theorem singleton_iff : Listed R [item] S ↔ R item S := by
  simp [cons_iff, nil_iff]

theorem append_iff :
    Listed R (items ++ more) S ↔ ∃ A B, Listed R items A ∧ Listed R more B ∧ S = A ∪ B := by
  induction items generalizing S with
  | nil => simp [nil_iff]
  | cons item items ih =>
    rw [List.cons_append, cons_iff]
    constructor
    · rintro ⟨A, _, hA, h, rfl⟩
      obtain ⟨B, C, hB, hC, rfl⟩ := ih.1 h
      exact ⟨_, C, .cons hA hB, hC, (Set.union_assoc ..).symm⟩
    · rintro ⟨_, C, h, hC, rfl⟩
      obtain ⟨A, B, hA, hB, rfl⟩ := cons_iff.1 h
      exact ⟨A, _, hA, ih.2 ⟨B, C, hB, hC, rfl⟩, Set.union_assoc ..⟩

theorem exists_iff : (∃ S, Listed R items S) ↔ ∀ item ∈ items, ∃ S, R item S := by
  induction items with
  | nil => simp [nil_iff]
  | cons item items ih =>
    rw [List.forall_mem_cons, ← ih]
    constructor
    · rintro ⟨S, h⟩
      obtain ⟨A, B, hA, hB, -⟩ := cons_iff.1 h
      exact ⟨⟨A, hA⟩, B, hB⟩
    · rintro ⟨⟨A, hA⟩, B, hB⟩
      exact ⟨_, .cons hA hB⟩

end Listed

theorem Listed.fieldText {items : List (List Char)} (h : Listed (ItemText f) items S)
    (hne : items ≠ []) : FieldText f ([','].intercalate items) S := by
  induction h with
  | nil => exact absurd rfl hne
  | @cons item items S T hitem hitems ih =>
    cases items with
    | nil =>
      rw [Listed.nil_iff.1 hitems, Set.union_empty, List.intercalate_singleton]
      exact .item hitem
    | cons next items =>
      rw [List.intercalate_cons_cons, List.append_assoc]
      exact .more hitem (ih (by simp))

theorem fieldText_iff : FieldText f cs S ↔ Listed (ItemText f) (cs.splitOn ',') S := by
  constructor
  · intro h
    induction h with
    | item h =>
      rw [List.splitOn_eq_singleton h.comma_not_mem]
      exact Listed.singleton_iff.2 h
    | more h _ ih =>
      rw [List.splitOn_append_cons_self_of_not_mem h.comma_not_mem]
      exact .cons h ih
  · intro h
    have htext := h.fieldText (List.splitOn_ne_nil ',' cs)
    rwa [List.intercalate_splitOn] at htext

/-- An item and the days that it stands for, with Sunday as 0 and as 7. -/
inductive DayText : List Char → Set Nat → Prop
  | days {item m n k} : Weekday.ItemDays item m n k →
      DayText item ((· % 7) '' {d | (m ≤ d ∧ d ≤ n) ∧ k ∣ d - m})
  | letters {item S} : (∃ c ∈ item, c.isAlpha = true) → ItemText .dayOfWeek item S →
      DayText item {d | d + 1 ∈ S}

theorem image_pred (h : ItemText .dayOfWeek cs S) : (· + 1) '' {d | d + 1 ∈ S} = S := by
  ext n
  constructor
  · rintro ⟨d, hd, rfl⟩
    exact hd
  · intro hn
    have hlow : 1 ≤ n := (h.limits n hn).1
    exact ⟨n - 1, by rwa [Set.mem_ofPred_eq, Nat.sub_add_cancel hlow], Nat.sub_add_cancel hlow⟩

theorem itemText_digits {d : Nat} :
    ItemText .dayOfWeek (digits (d % 7 + 1)) S ↔ S = {d % 7 + 1} := by
  have hnumeral : Numeral (digits (d % 7 + 1)) (d % 7 + 1) := by
    refine ⟨?_, ?_, ?_, by omega⟩
    · exact List.ne_nil_of_length_pos (length_digits_pos _)
    · exact fun c hc => Nat.isDigit_of_mem_toDigits (by decide) (by decide) hc
    · rw [natOfDigits_eq, digits, Nat.ofDigitChars_ten_toDigits]
  have hitem : ItemText .dayOfWeek (digits (d % 7 + 1)) {d % 7 + 1} :=
    .number hnumeral (by simp [Field.low]) (by simp [Field.high]; omega)
  constructor
  · exact fun h => (FieldText.item h).unique (.item hitem)
  · rintro rfl
    exact hitem

theorem listed_digits (ds : List Nat) :
    Listed (ItemText .dayOfWeek) (ds.map fun d => digits (d % 7 + 1)) S ↔
      S = (fun d => d % 7 + 1) '' {d | d ∈ ds} := by
  induction ds generalizing S with
  | nil => simp [Listed.nil_iff]
  | cons d ds ih =>
    have hset : (fun d => d % 7 + 1) '' {e | e ∈ d :: ds} =
        {d % 7 + 1} ∪ (fun d => d % 7 + 1) '' {e | e ∈ ds} := by
      simp only [List.mem_cons, Set.ofPred_or, Set.image_union, Set.ofPred_eq_eq_singleton,
        Set.image_singleton]
    rw [List.map_cons, Listed.cons_iff, hset]
    constructor
    · rintro ⟨A, B, hA, hB, rfl⟩
      rw [itemText_digits.1 hA, ih.1 hB]
    · rintro rfl
      exact ⟨_, _, itemText_digits.2 rfl, ih.2 rfl, rfl⟩

namespace Weekday

variable {item : List Char} {items : List (List Char)} {m n k : Nat}

theorem ItemDays.le (h : ItemDays item m n k) : m ≤ n ∧ 0 < k := by
  cases h with
  | plain hr => exact ⟨hr.le.1, Nat.one_pos⟩
  | stepped hr _ hpos => exact ⟨hr.le.1, hpos⟩

theorem ItemDays.daysFrom_eq (h : ItemDays item m n k) {m' n' k' : Nat}
    (h' : ItemDays item m' n' k') : daysFrom m n k = daysFrom m' n' k' :=
  Except.ok.inj ((days_eq_ok_iff.2 ⟨m, n, k, h, rfl⟩).symm.trans
    (days_eq_ok_iff.2 ⟨m', n', k', h', rfl⟩))

theorem ItemDays.dayText_iff (h : ItemDays item m n k) {D : Set Nat} :
    DayText item D ↔ D = (· % 7) '' {d | d ∈ daysFrom m n k} := by
  have hset : ∀ {m n k}, ItemDays item m n k →
      {d | (m ≤ d ∧ d ≤ n) ∧ k ∣ d - m} = {d | d ∈ daysFrom m n k} := fun h =>
    Set.ext fun d => (mem_daysFrom h.le.1 h.le.2).symm
  constructor
  · intro hD
    cases hD with
    | days h' => rw [hset h', h.daysFrom_eq h']
    | letters hletter => exact absurd hletter h.no_letter
  · rintro rfl
    rw [← hset h]
    exact .days h

/-- What stands in the place of an item stands for the same days. -/
theorem Rewritten.listed_iff {pieces : List (List Char)} (h : Rewritten item pieces) :
    Listed (ItemText .dayOfWeek) pieces S ↔ ∃ D, DayText item D ∧ S = (· + 1) '' D := by
  cases h with
  | letters hletter =>
    rw [Listed.singleton_iff]
    constructor
    · exact fun hS => ⟨_, .letters hletter hS, (image_pred hS).symm⟩
    · rintro ⟨D, hD, rfl⟩
      cases hD with
      | days h => exact absurd hletter h.no_letter
      | letters _ hS => rwa [image_pred hS]
  | days h =>
    rw [listed_digits]
    simp only [h.dayText_iff, exists_eq_left, Set.image_image]

theorem listed_flatten {pieces : List (List (List Char))}
    (h : List.Forall₂ Rewritten items pieces) :
    Listed (ItemText .dayOfWeek) pieces.flatten S ↔
      ∃ D, Listed DayText items D ∧ S = (· + 1) '' D := by
  induction h generalizing S with
  | nil => simp [Listed.nil_iff]
  | @cons item first items pieces hfirst _ ih =>
    rw [List.flatten_cons, Listed.append_iff]
    constructor
    · rintro ⟨A, B, hA, hB, rfl⟩
      obtain ⟨D, hD, rfl⟩ := hfirst.listed_iff.1 hA
      obtain ⟨E, hE, rfl⟩ := ih.1 hB
      exact ⟨_, .cons hD hE, (Set.image_union ..).symm⟩
    · rintro ⟨_, h, rfl⟩
      obtain ⟨D, E, hD, hE, rfl⟩ := Listed.cons_iff.1 h
      exact ⟨_, _, hfirst.listed_iff.2 ⟨D, hD, rfl⟩, ih.2 ⟨E, hE, rfl⟩, Set.image_union ..⟩

theorem mark_iff (h : item = ['*'] ∨ item = ['?']) :
    ItemText .dayOfWeek item S ↔ ∃ D, DayText item D ∧ S = (· + 1) '' D := by
  have hdays : ItemDays item 0 6 1 ∧ ItemText .dayOfWeek item (Set.Icc 1 7) := by
    rcases h with rfl | rfl
    · exact ⟨.plain .all, .range .all⟩
    · exact ⟨.plain .any, .range (.any rfl)⟩
  have hset : (· + 1) '' ((· % 7) '' {d | d ∈ daysFrom 0 6 1}) = Set.Icc 1 7 := by
    ext n
    simp only [Set.image_image, Set.mem_image, Set.mem_ofPred_eq,
      mem_daysFrom (show 0 ≤ 6 by decide) Nat.one_pos, Set.mem_Icc]
    constructor
    · rintro ⟨d, -, rfl⟩
      omega
    · exact fun hn => ⟨n - 1, ⟨by omega, Nat.one_dvd _⟩, by omega⟩
  simp only [hdays.1.dayText_iff, exists_eq_left, hset]
  constructor
  · exact fun hS => (FieldText.item hS).unique (.item hdays.2)
  · rintro rfl
    exact hdays.2

end Weekday

theorem RangeText.le {m n : Nat} (h : RangeText f cs m n) : m ≤ n := by
  cases h with
  | all | any => cases f <;> decide
  | numbers _ _ _ hle => exact hle
  | names _ _ hle => exact hle

theorem ItemText.nonempty (h : ItemText f cs S) : S.Nonempty := by
  cases h with
  | number | name => exact Set.singleton_nonempty _
  | range hr => exact Set.nonempty_Icc.2 hr.le
  | steppedRange hr => exact ⟨_, ⟨le_rfl, hr.le⟩, by simp⟩
  | steppedNumber _ _ hhigh => exact ⟨_, ⟨le_rfl, hhigh⟩, by simp⟩

theorem DayText.spec {D : Set Nat} (h : DayText cs D) : D.Nonempty ∧ ∀ d ∈ D, d ≤ 6 := by
  cases h with
  | @days m n k h =>
    constructor
    · exact ⟨m % 7, m, ⟨⟨le_rfl, h.le.1⟩, by simp⟩, rfl⟩
    · rintro _ ⟨d, -, rfl⟩
      exact Nat.lt_succ_iff.1 (Nat.mod_lt d (by decide))
  | letters _ hS =>
    constructor
    · have hne := hS.nonempty
      rw [← image_pred hS] at hne
      exact Set.image_nonempty.1 hne
    · exact fun d hd => Nat.le_of_succ_le_succ (hS.limits _ hd).2

theorem Listed.days_spec {items : List (List Char)} {D : Set Nat} (h : Listed DayText items D)
    (hne : items ≠ []) : D.Nonempty ∧ ∀ d ∈ D, d ≤ 6 := by
  induction h with
  | nil => exact absurd rfl hne
  | @cons item items D E hD hE ih =>
    refine ⟨hD.spec.1.inl, ?_⟩
    rintro d (hd | hd)
    · exact hD.spec.2 d hd
    · cases items with
      | nil =>
        rw [Listed.nil_iff.1 hE] at hd
        cases hd
      | cons => exact (ih (by simp)).2 d hd

namespace Weekday

variable {field out : List Char}

theorem fieldText_renumbered (h : renumberField field = .ok out) : FieldText .dayOfWeek out S ↔
    ∃ D, Listed DayText (field.splitOn ',') D ∧ S = (· + 1) '' D := by
  rw [renumberField_eq_ok_iff] at h
  rw [fieldText_iff]
  split at h
  · rename_i hmark
    have hcomma : ',' ∉ field := by rcases hmark with rfl | rfl <;> decide
    rw [h, List.splitOn_eq_singleton hcomma]
    simp only [Listed.singleton_iff]
    exact mark_iff hmark
  · obtain ⟨pieces, hpieces, rfl⟩ := h
    obtain ⟨hne, hcommas⟩ := pieces_of_rewritten hpieces
    rw [List.splitOn_intercalate _ (fun piece hpiece => (hcommas piece hpiece).2) hne]
    exact listed_flatten hpieces

theorem exists_fieldText_iff (h : renumberField field = .ok out) :
    (∃ S, FieldText .dayOfWeek out S) ↔ ∀ item ∈ field.splitOn ',',
      (∃ c ∈ item, c.isAlpha = true) → ∃ S, ItemText .dayOfWeek item S := by
  have hdays := renumberField_isOk_iff.1 ⟨out, h⟩
  have hlisted : (∃ S, FieldText .dayOfWeek out S) ↔ ∃ D, Listed DayText (field.splitOn ',') D := by
    simp only [fieldText_renumbered h]
    constructor
    · rintro ⟨_, D, hD, -⟩
      exact ⟨D, hD⟩
    · rintro ⟨D, hD⟩
      exact ⟨_, D, hD, rfl⟩
  rw [hlisted, Listed.exists_iff]
  refine forall₂_congr fun item hitem => ?_
  constructor
  · rintro ⟨_, hD⟩ hletter
    cases hD with
    | days h => exact absurd hletter h.no_letter
    | letters _ hS => exact ⟨_, hS⟩
  · intro hnamed
    by_cases hletter : ∃ c ∈ item, c.isAlpha = true
    · obtain ⟨S, hS⟩ := hnamed hletter
      exact ⟨_, .letters hletter hS⟩
    · obtain ⟨m, n, k, hitem⟩ := hdays item hitem fun c hc =>
        Bool.eq_false_iff.2 fun hc' => hletter ⟨c, hc, hc'⟩
      exact ⟨_, .days hitem⟩

/-- A field is renumbered exactly if each of its items has a letter in it or is a range of days with
a step or without. Items with a letter stay, a range becomes its days, and the field stands for the
days that it stood for, each under the number that the grammar has for it. -/
theorem renumberField_exact (field : List Char) :
    (field = ['*'] ∨ field = ['?'] → renumberField field = .ok field) ∧
    ((∃ out, renumberField field = .ok out) ↔ ∀ item ∈ field.splitOn ',',
      (∀ c ∈ item, c.isAlpha = false) → ∃ m n k, ItemDays item m n k) ∧
    ∀ out, renumberField field = .ok out →
      (¬ (field = ['*'] ∨ field = ['?']) →
        ∃ pieces, List.Forall₂ Rewritten (field.splitOn ',') pieces ∧
          out = [','].intercalate pieces.flatten) ∧
      (∀ S, FieldText .dayOfWeek out S ↔
        ∃ D, Listed DayText (field.splitOn ',') D ∧ S = (· + 1) '' D) ∧
      ((∃ S, FieldText .dayOfWeek out S) ↔ ∀ item ∈ field.splitOn ',',
        (∃ c ∈ item, c.isAlpha = true) → ∃ S, ItemText .dayOfWeek item S) ∧
      out ≠ [] ∧
      ∀ D, Listed DayText (field.splitOn ',') D → D.Nonempty ∧ ∀ d ∈ D, d ≤ 6 := by
  refine ⟨fun hmark => if_pos hmark, renumberField_isOk_iff, fun out h => ⟨fun hmark => ?_, ?_⟩⟩
  · rw [renumberField_eq_ok_iff, if_neg hmark] at h
    exact h
  · exact ⟨fun S => fieldText_renumbered h, exists_fieldText_iff h, renumbered_ne_nil h,
      fun D hD => hD.days_spec (List.splitOn_ne_nil ',' field)⟩

/-- Every other day from Monday to Friday, and Saturday by its name. -/
theorem renumberField_exact_every_other :
    (∃ pieces, List.Forall₂ Rewritten ("1-5/2,sat".toList.splitOn ',') pieces ∧
      "2,4,6,sat".toList = [','].intercalate pieces.flatten) ∧
    ∃ D, Listed DayText ("1-5/2,sat".toList.splitOn ',') D ∧
      FieldText .dayOfWeek "2,4,6,sat".toList ((· + 1) '' D) ∧ D.Nonempty := by
  have h : renumberField "1-5/2,sat".toList = .ok "2,4,6,sat".toList := by decide +kernel
  obtain ⟨hpieces, hdays, hnamed, -, hspec⟩ := (renumberField_exact _).2.2 _ h
  have hsplit : "1-5/2,sat".toList.splitOn ',' = ["1-5/2".toList, "sat".toList] := by decide +kernel
  have hsat : ItemText .dayOfWeek "sat".toList {7} := .name (by decide)
  have hplain : "1-5/2".toList.all (fun c => !c.isAlpha) = true := by decide +kernel
  have hletters : ∀ item ∈ "1-5/2,sat".toList.splitOn ',', (∃ c ∈ item, c.isAlpha = true) →
      ∃ S, ItemText .dayOfWeek item S := by
    rw [hsplit]
    rintro item hitem ⟨c, hc, hletter⟩
    rcases List.mem_pair.1 hitem with rfl | rfl
    · have hc' := List.all_eq_true.1 hplain c hc
      rw [hletter] at hc'
      cases hc'
    · exact ⟨_, hsat⟩
  obtain ⟨S, hS⟩ := hnamed.2 hletters
  obtain ⟨D, hD, rfl⟩ := (hdays S).1 hS
  exact ⟨hpieces (by decide), D, hD, hS, (hspec D hD).1⟩

end Weekday

end Snapshots.Cron
