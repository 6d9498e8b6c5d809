import Mathlib.Algebra.Order.Group.Nat
import Mathlib.Order.Interval.Set.Basic
import Snapshots.Cron.Grammar

/-! # How a field is written

A field that is written as one word, and the values it stands for: items with commas between them,
each a number, a name or a range, and a range or a number with a step. Every such word is the text
of a list of items that the field allows, and the other way round.
-/

namespace Snapshots.Cron

open Text

structure Numeral (cs : List Char) (n : Nat) : Prop where
  ne_nil : cs ≠ []
  digits : ∀ c ∈ cs, c.isDigit = true
  value : natOfDigits cs = n
  small : n < 4294967296

theorem numeral_iff {cs : List Char} {n : Nat} : Numeral cs n ↔
    (cs ≠ [] ∧ cs.all Char.isDigit = true) ∧ natOfDigits cs = n ∧ n < 4294967296 := by
  rw [List.all_eq_true]
  constructor
  · exact fun h => ⟨⟨h.ne_nil, h.digits⟩, h.value, h.small⟩
  · exact fun h => ⟨h.1.1, h.1.2, h.2.1, h.2.2⟩

instance (cs : List Char) (n : Nat) : Decidable (Numeral cs n) :=
  decidable_of_iff' _ numeral_iff

inductive RangeText (f : Field) : List Char → Nat → Nat → Prop
  | all : RangeText f ['*'] f.low f.high
  | any : f.hasAnyMark = true → RangeText f ['?'] f.low f.high
  | numbers {cs ds m n} : Numeral cs m → Numeral ds n → f.low ≤ m → m ≤ n → n ≤ f.high →
      RangeText f (cs ++ '-' :: ds) m n
  | names {cs ds m n} : f.ofName? cs = some m → f.ofName? ds = some n → m ≤ n →
      RangeText f (cs ++ '-' :: ds) m n

/-- An item of a field, with the values that it stands for. -/
inductive ItemText (f : Field) : List Char → Set Nat → Prop
  | number {cs n} : Numeral cs n → f.low ≤ n → n ≤ f.high → ItemText f cs {n}
  | name {cs n} : f.ofName? cs = some n → ItemText f cs {n}
  | range {cs m n} : RangeText f cs m n → ItemText f cs (Set.Icc m n)
  | steppedRange {cs ds m n k} : RangeText f cs m n → Numeral ds k → 1 ≤ k → k ≤ f.high →
      ItemText f (cs ++ '/' :: ds) {i | i ∈ Set.Icc m n ∧ k ∣ i - m}
  | steppedNumber {cs ds n k} : Numeral cs n → f.low ≤ n → n ≤ f.high → Numeral ds k → 1 ≤ k →
      k ≤ f.high → ItemText f (cs ++ '/' :: ds) {i | i ∈ Set.Icc n f.high ∧ k ∣ i - n}

/-- A field written as one word, with the values that it stands for. -/
inductive FieldText (f : Field) : List Char → Set Nat → Prop
  | item {cs S} : ItemText f cs S → FieldText f cs S
  | more {cs ds S T} : ItemText f cs S → FieldText f ds T → FieldText f (cs ++ ',' :: ds) (S ∪ T)

structure Letters (cs : List Char) : Prop where
  ne_nil : cs ≠ []
  letters : ∀ c ∈ cs, c.isAlpha = true

inductive Range.Written (anyMark : Bool) : Range → List Char → Prop
  | all : Written anyMark .all ['*']
  | any : anyMark = true → Written anyMark .all ['?']
  | point {n cs} : Numeral cs n → Written anyMark (.point n) cs
  | numbers {m n cs ds} : Numeral cs m → Numeral ds n →
      Written anyMark (.numbers m n) (cs ++ '-' :: ds)
  | names {cs ds} : Letters cs → Letters ds → Written anyMark (.names cs ds) (cs ++ '-' :: ds)

inductive Item.Written (anyMark : Bool) : Item → List Char → Prop
  | plain {r cs} : r.Written anyMark cs → Written anyMark (.plain r) cs
  | stepped {r cs k ds} : r.Written anyMark cs → Numeral ds k →
      Written anyMark (.stepped r k) (cs ++ '/' :: ds)
  | named {cs} : Letters cs → Written anyMark (.named cs) cs

inductive ItemsWritten (anyMark : Bool) : List Item → List Char → Prop
  | one {i cs} : i.Written anyMark cs → ItemsWritten anyMark [i] cs
  | more {i is cs ds} : i.Written anyMark cs → ItemsWritten anyMark is ds →
      ItemsWritten anyMark (i :: is) (cs ++ ',' :: ds)

theorem isAlpha_of_toLower {c : Char} (h : c.toLower.isAlpha = true) : c.isAlpha = true := by
  unfold Char.toLower at h
  split at h
  · rename_i hc
    have hupper : c.isUpper = true := decide_eq_true hc
    exact Bool.or_eq_true_iff.2 (.inl hupper)
  · exact h

theorem mem_of_lookup {α β : Type} [BEq α] [LawfulBEq α] {a : α} {b : β} {l : List (α × β)}
    (h : l.lookup a = some b) : (a, b) ∈ l := by
  obtain ⟨before, after, rfl, -⟩ := List.lookup_eq_some_iff.1 h
  exact List.mem_append_cons_self

namespace Field

theorem letters_of_names {l : List (String × Nat)} {low high : Nat}
    (hl : ∀ e ∈ l, (e.1.toList ≠ [] ∧ e.1.toList.all Char.isAlpha = true) ∧
      low ≤ e.2 ∧ e.2 ≤ high)
    {cs : List Char} {n : Nat} (h : l.lookup (String.ofList (cs.map Char.toLower)) = some n) :
    Letters cs ∧ low ≤ n ∧ n ≤ high := by
  obtain ⟨⟨hne, hletters⟩, hn⟩ := hl _ (mem_of_lookup h)
  rw [String.toList_ofList] at hne hletters
  rw [List.all_eq_true] at hletters
  refine ⟨⟨by simpa using hne, fun c hc => ?_⟩, hn⟩
  exact isAlpha_of_toLower (hletters _ (List.mem_map_of_mem hc))

theorem ofName?_spec {f : Field} {cs : List Char} {n : Nat} (h : f.ofName? cs = some n) :
    Letters cs ∧ f.low ≤ n ∧ n ≤ f.high := by
  cases f with
  | month => exact letters_of_names (l := monthNames) (by decide) h
  | dayOfWeek => exact letters_of_names (l := dayNames) (by decide) h
  | _ => cases h

theorem check?_eq_some_iff {f : Field} {m n : Nat} :
    f.check? m = some n ↔ m = n ∧ f.low ≤ n ∧ n ≤ f.high := by
  unfold check?
  split
  · rename_i h
    simp only [Option.some.injEq]
    constructor
    · rintro rfl
      exact ⟨rfl, h⟩
    · exact fun h => h.1
  · rename_i h
    refine iff_of_false (by simp) ?_
    rintro ⟨rfl, hn⟩
    exact h hn

end Field

theorem Range.ordered?_eq_some_iff {f : Field} {a b m n : Nat} :
    Range.bounds?.ordered? f a b = some (m, n) ↔
      (a = m ∧ b = n) ∧ f.low ≤ m ∧ m ≤ n ∧ n ≤ f.high := by
  unfold Range.bounds?.ordered?
  simp only [bind, Option.bind_eq_some_iff, Field.check?_eq_some_iff]
  constructor
  · rintro ⟨_, ⟨rfl, hlow, -⟩, _, ⟨rfl, -, hhigh⟩, h⟩
    split at h <;> cases h
    exact ⟨⟨rfl, rfl⟩, hlow, ‹_›, hhigh⟩
  · rintro ⟨⟨rfl, rfl⟩, hlow, hle, hhigh⟩
    exact ⟨a, ⟨rfl, hlow, by omega⟩, b, ⟨rfl, by omega, hhigh⟩, if_pos hle⟩

variable {f : Field} {cs : List Char}

theorem Range.Written.bounds {r : Range} {stepped : Bool} {m n : Nat}
    (h : r.Written f.hasAnyMark cs) (hb : r.bounds? f stepped = some (m, n)) :
    RangeText f cs m n ∨
      (Numeral cs m ∧ f.low ≤ m ∧ m ≤ f.high) ∧ n = if stepped then f.high else m := by
  cases h with
  | all =>
    cases hb
    exact .inl .all
  | any hany =>
    cases hb
    exact .inl (.any hany)
  | point hn =>
    obtain ⟨_, hc, he⟩ := Option.map_eq_some_iff.1 hb
    cases he
    obtain ⟨rfl, hlimits⟩ := Field.check?_eq_some_iff.1 hc
    exact .inr ⟨⟨hn, hlimits⟩, rfl⟩
  | numbers hm hn =>
    obtain ⟨⟨rfl, rfl⟩, hlow, hle, hhigh⟩ := Range.ordered?_eq_some_iff.1 hb
    exact .inl (.numbers hm hn hlow hle hhigh)
  | names =>
    simp only [Range.bounds?, bind, Option.bind_eq_some_iff] at hb
    obtain ⟨_, ha, _, hb, hord⟩ := hb
    obtain ⟨⟨rfl, rfl⟩, -, hle, -⟩ := Range.ordered?_eq_some_iff.1 hord
    exact .inl (.names ha hb hle)

theorem RangeText.bounds {m n : Nat} (h : RangeText f cs m n) :
    ∃ r : Range, r.Written f.hasAnyMark cs ∧ ∀ stepped, r.bounds? f stepped = some (m, n) := by
  cases h with
  | all => exact ⟨.all, .all, fun _ => rfl⟩
  | any hany => exact ⟨.all, .any hany, fun _ => rfl⟩
  | numbers hm hn hlow hle hhigh =>
    exact ⟨_, .numbers hm hn, fun _ => Range.ordered?_eq_some_iff.2 ⟨⟨rfl, rfl⟩, hlow, hle, hhigh⟩⟩
  | names hm hn hle =>
    obtain ⟨hcs, hlow, -⟩ := Field.ofName?_spec hm
    obtain ⟨hds, -, hhigh⟩ := Field.ofName?_spec hn
    refine ⟨_, .names hcs hds, fun _ => ?_⟩
    simp only [Range.bounds?, hm, hn, bind, Option.bind_some]
    exact Range.ordered?_eq_some_iff.2 ⟨⟨rfl, rfl⟩, hlow, hle, hhigh⟩

theorem Numeral.bounds {n : Nat} (hlow : f.low ≤ n) (hhigh : n ≤ f.high)
    (stepped : Bool) :
    (Range.point n).bounds? f stepped = some (n, if stepped then f.high else n) := by
  rw [Range.bounds?, Field.check?_eq_some_iff.2 ⟨rfl, hlow, hhigh⟩]
  rfl

/-- The values that a progression runs through. -/
def Span.values (s : Span) : Set Nat :=
  {n | s.covers n = true}

theorem Span.values_eq (m n k : Nat) :
    Span.values ⟨m, n, k⟩ = {i | i ∈ Set.Icc m n ∧ k ∣ i - m} := by
  ext i
  simp [Span.values, Span.covers, Nat.dvd_iff_mod_eq_zero]

theorem Span.values_one (m n : Nat) : Span.values ⟨m, n, 1⟩ = Set.Icc m n := by
  simp [Span.values_eq, Set.Icc]

theorem ItemText.written {S : Set Nat} (h : ItemText f cs S) : ∃ (i : Item) (s : Span),
    i.Written f.hasAnyMark cs ∧ i.span? f = some s ∧ S = s.values := by
  cases h with
  | number hn hlow hhigh =>
    rename_i n
    refine ⟨.plain (.point n), ⟨n, n, 1⟩, .plain (.point hn), ?_, ?_⟩
    · rw [Item.span?, Numeral.bounds hlow hhigh]
      rfl
    · rw [Span.values_one, Set.Icc_self]
  | name hn =>
    rename_i n
    refine ⟨.named cs, ⟨n, n, 1⟩, .named (Field.ofName?_spec hn).1, ?_, ?_⟩
    · simp only [Item.span?, hn, bind, Option.bind_some]
    · rw [Span.values_one, Set.Icc_self]
  | range hr =>
    obtain ⟨r, hw, hb⟩ := hr.bounds
    refine ⟨.plain r, ⟨_, _, 1⟩, .plain hw, ?_, (Span.values_one ..).symm⟩
    rw [Item.span?, hb]
    rfl
  | steppedRange hr hk hpos hmax =>
    obtain ⟨r, hw, hb⟩ := hr.bounds
    refine ⟨.stepped r _, ⟨_, _, _⟩, .stepped hw hk, ?_, (Span.values_eq ..).symm⟩
    rw [Item.span?, if_pos ⟨hpos, hmax⟩, hb]
    rfl
  | steppedNumber hn hlow hhigh hk hpos hmax =>
    refine ⟨.stepped (.point _) _, ⟨_, _, _⟩, .stepped (.point hn) hk, ?_, (Span.values_eq ..).symm⟩
    rw [Item.span?, if_pos ⟨hpos, hmax⟩, Numeral.bounds hlow hhigh]
    rfl

theorem Item.Written.itemText {i : Item} {s : Span} (h : i.Written f.hasAnyMark cs)
    (hs : i.span? f = some s) : ItemText f cs s.values := by
  cases h with
  | plain hr =>
    obtain ⟨⟨m, n⟩, hb, rfl⟩ := Option.map_eq_some_iff.1 hs
    rw [Span.values_one]
    rcases hr.bounds hb with hr | ⟨⟨hn, hlow, hhigh⟩, hlast⟩
    · exact .range hr
    · rw [hlast, if_neg (by simp), Set.Icc_self]
      exact .number hn hlow hhigh
  | stepped hr hk =>
    rw [Item.span?] at hs
    split at hs
    · rename_i hlimits
      obtain ⟨⟨m, n⟩, hb, rfl⟩ := Option.map_eq_some_iff.1 hs
      rw [Span.values_eq]
      rcases hr.bounds hb with hr | ⟨⟨hn, hlow, hhigh⟩, rfl⟩
      · exact .steppedRange hr hk hlimits.1 hlimits.2
      · exact .steppedNumber hn hlow hhigh hk hlimits.1 hlimits.2
    · cases hs
  | named =>
    simp only [Item.span?, bind, Option.bind_eq_some_iff, Option.some.injEq] at hs
    obtain ⟨n, hn, rfl⟩ := hs
    rw [Span.values_one, Set.Icc_self]
    exact .name hn

theorem Range.bounds?_limits {r : Range} {stepped : Bool} {m n : Nat}
    (h : r.bounds? f stepped = some (m, n)) : f.low ≤ m ∧ n ≤ f.high := by
  cases r with
  | all =>
    cases h
    exact ⟨le_rfl, le_rfl⟩
  | point =>
    obtain ⟨_, hc, he⟩ := Option.map_eq_some_iff.1 h
    cases he
    obtain ⟨-, hlow, hhigh⟩ := Field.check?_eq_some_iff.1 hc
    refine ⟨hlow, ?_⟩
    split
    · exact le_rfl
    · exact hhigh
  | numbers =>
    obtain ⟨-, hlow, -, hhigh⟩ := Range.ordered?_eq_some_iff.1 h
    exact ⟨hlow, hhigh⟩
  | names =>
    simp only [Range.bounds?, bind, Option.bind_eq_some_iff] at h
    obtain ⟨_, -, _, -, h⟩ := h
    obtain ⟨-, hlow, -, hhigh⟩ := Range.ordered?_eq_some_iff.1 h
    exact ⟨hlow, hhigh⟩

theorem Item.span?_limits {i : Item} {s : Span} (hs : i.span? f = some s) :
    f.low ≤ s.first ∧ s.last ≤ f.high := by
  cases i with
  | plain r =>
    obtain ⟨⟨m, n⟩, hb, rfl⟩ := Option.map_eq_some_iff.1 hs
    exact Range.bounds?_limits hb
  | stepped r k =>
    rw [Item.span?] at hs
    split at hs
    · obtain ⟨⟨m, n⟩, hb, rfl⟩ := Option.map_eq_some_iff.1 hs
      exact Range.bounds?_limits hb
    · cases hs
  | named cs =>
    simp only [Item.span?, bind, Option.bind_eq_some_iff, Option.some.injEq] at hs
    obtain ⟨n, hn, rfl⟩ := hs
    exact (Field.ofName?_spec hn).2

theorem mapM_cons_eq_some_iff {α β : Type} {g : α → Option β} {a : α} {l : List α} {bs : List β} :
    (a :: l).mapM g = some bs ↔ ∃ b bs', g a = some b ∧ l.mapM g = some bs' ∧ bs = b :: bs' := by
  rw [List.mapM_cons]
  constructor
  · intro h
    obtain ⟨b, hb, h⟩ := Option.bind_eq_some_iff.1 h
    obtain ⟨bs', hbs, h⟩ := Option.bind_eq_some_iff.1 h
    cases h
    exact ⟨b, bs', hb, hbs, rfl⟩
  · rintro ⟨b, bs', hb, hbs, rfl⟩
    rw [hb, hbs]
    rfl

theorem FieldText.written {S : Set Nat} (h : FieldText f cs S) : ∃ (items : List Item)
    (spans : List Span), ItemsWritten f.hasAnyMark items cs ∧
      items.mapM (Item.span? f) = some spans ∧ S = {n | ∃ s ∈ spans, n ∈ s.values} := by
  induction h with
  | item h =>
    obtain ⟨i, s, hw, hs, rfl⟩ := h.written
    refine ⟨[i], [s], .one hw, mapM_cons_eq_some_iff.2 ⟨s, [], hs, rfl, rfl⟩, ?_⟩
    simp
  | more h _ ih =>
    obtain ⟨i, s, hw, hs, rfl⟩ := h.written
    obtain ⟨is, ss, hws, hss, rfl⟩ := ih
    refine ⟨i :: is, s :: ss, .more hw hws, mapM_cons_eq_some_iff.2 ⟨s, ss, hs, hss, rfl⟩, ?_⟩
    ext n
    simp

theorem ItemsWritten.fieldText {items : List Item} {spans : List Span}
    (h : ItemsWritten f.hasAnyMark items cs) (hs : items.mapM (Item.span? f) = some spans) :
    FieldText f cs {n | ∃ s ∈ spans, n ∈ s.values} := by
  induction h generalizing spans with
  | one hw =>
    obtain ⟨s, _, hspan, hnil, rfl⟩ := mapM_cons_eq_some_iff.1 hs
    cases hnil
    simpa using FieldText.item (hw.itemText hspan)
  | more hw _ ih =>
    obtain ⟨s, ss, hspan, hss, rfl⟩ := mapM_cons_eq_some_iff.1 hs
    have hset : {n | ∃ t ∈ s :: ss, n ∈ t.values} = s.values ∪ {n | ∃ t ∈ ss, n ∈ t.values} := by
      ext n
      simp
    rw [hset]
    exact .more (hw.itemText hspan) (ih hss)

theorem Field.values?_spec {f : Field} {items : List Item} {v : List Nat}
    (h : f.values? items = some v) : ∃ spans, items.mapM (Item.span? f) = some spans ∧
      (∀ n, n ∈ v ↔ ∃ s ∈ spans, n ∈ s.values) ∧ v.Pairwise (· < ·) ∧
      ∀ n ∈ v, f.low ≤ n ∧ n ≤ f.high := by
  obtain ⟨spans, hspans, hv⟩ := Option.bind_eq_some_iff.1 h
  cases hv
  have hlimits : ∀ s ∈ spans, f.low ≤ s.first ∧ s.last ≤ f.high := by
    clear h
    induction items generalizing spans with
    | nil =>
      cases hspans
      simp
    | cons i is ih =>
      obtain ⟨s, ss, hs, hss, rfl⟩ := mapM_cons_eq_some_iff.1 hspans
      rintro t ht
      rcases List.mem_cons.1 ht with rfl | ht
      · exact Item.span?_limits hs
      · exact ih ss hss t ht
  have hmem : ∀ n, (∃ s ∈ spans, n ∈ s.values) → f.low ≤ n ∧ n ≤ f.high := by
    rintro n ⟨s, hs, hn⟩
    obtain ⟨hlow, hhigh⟩ := hlimits s hs
    rw [show s = ⟨s.first, s.last, s.step⟩ from rfl, Span.values_eq] at hn
    exact ⟨hlow.trans hn.1.1, hn.1.2.trans hhigh⟩
  refine ⟨spans, hspans, fun n => ?_, ?_, fun n hn => hmem n ?_⟩
  · rw [List.mem_filter, List.mem_range, List.any_eq_true]
    exact ⟨fun h => h.2, fun h => ⟨Nat.lt_succ_of_le (hmem n h).2, h⟩⟩
  · exact List.pairwise_lt_range.filter _
  · exact List.any_eq_true.1 (List.mem_filter.1 hn).2

theorem Field.values?_isSome {f : Field} {items : List Item} {spans : List Span}
    (h : items.mapM (Item.span? f) = some spans) : ∃ v, f.values? items = some v := by
  simp only [values?, h]
  exact ⟨_, rfl⟩

end Snapshots.Cron
