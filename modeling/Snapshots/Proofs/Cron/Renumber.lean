import Mathlib.Data.List.Forall2
import Mathlib.Data.List.Sort
import Snapshots.Cron.Weekday
import Snapshots.Proofs.Cron.Reading
import Snapshots.Proofs.Text.Decimal

/-! # How days of the week are rewritten

An item is in numbers, which are read and written anew day by day, or it has a letter in it and
stays. The items of a field are told apart by its commas, before and after.
-/

namespace Snapshots.Cron

open Text

inductive Unsigned : List Char → Nat → Prop
  | plain {ds} : ds ≠ [] → (∀ c ∈ ds, c.isDigit = true) → Unsigned ds (Nat.ofDigitChars 10 ds 0)
  | plus {ds} : ds ≠ [] → (∀ c ∈ ds, c.isDigit = true) →
      Unsigned ('+' :: ds) (Nat.ofDigitChars 10 ds 0)

theorem Unsigned.digit_or_plus {cs : List Char} {n : Nat} (h : Unsigned cs n) :
    ∀ c ∈ cs, c.isDigit = true ∨ c = '+' := by
  cases h with
  | plain _ hdigits => exact fun c hc => .inl (hdigits c hc)
  | plus _ hdigits =>
    intro c hc
    rcases List.mem_cons.1 hc with rfl | hc
    · exact .inr rfl
    · exact .inl (hdigits c hc)

theorem Unsigned.not_mem {cs : List Char} {n : Nat} (h : Unsigned cs n) {mark : Char}
    (hmark : ¬ (mark.isDigit = true ∨ mark = '+')) : mark ∉ cs :=
  fun hmem => hmark (h.digit_or_plus mark hmem)

theorem Unsigned.ne_mark {cs : List Char} {n : Nat} (h : Unsigned cs n) :
    ¬ (cs = ['*'] ∨ cs = ['?']) := by
  rintro (rfl | rfl) <;> exact absurd (h.digit_or_plus _ List.mem_cons_self) (by decide)

theorem natOfSigned?_eq_some_iff {cs : List Char} {n : Nat} :
    natOfSigned? cs = some n ↔ Unsigned cs n := by
  constructor
  · intro h
    by_cases hplus : ∃ ds, cs = '+' :: ds
    · obtain ⟨ds, rfl⟩ := hplus
      rw [natOfSigned?_plus, Option.ite_none_right_eq_some, natOfDigits_eq] at h
      obtain ⟨⟨hne, hdigits⟩, hn⟩ := h
      cases hn
      exact .plus hne (List.all_eq_true.1 hdigits)
    · rw [natOfSigned?_of_ne_plus (not_exists.1 hplus), Option.ite_none_right_eq_some,
        natOfDigits_eq] at h
      obtain ⟨⟨hne, hdigits⟩, hn⟩ := h
      cases hn
      exact .plain hne (List.all_eq_true.1 hdigits)
  · intro h
    cases h with
    | plain hne hdigits =>
      have hplus : ∀ ds, cs ≠ '+' :: ds := by
        rintro ds rfl
        exact absurd (hdigits '+' List.mem_cons_self) (by decide)
      rw [natOfSigned?_of_ne_plus hplus, if_pos ⟨hne, List.all_eq_true.2 hdigits⟩, natOfDigits_eq]
    | plus hne hdigits =>
      rw [natOfSigned?_plus, if_pos ⟨hne, List.all_eq_true.2 hdigits⟩, natOfDigits_eq]

theorem bind_eq_ok_iff {ε α β : Type} {x : Except ε α} {g : α → Except ε β} {b : β} :
    x >>= g = .ok b ↔ ∃ a, x = .ok a ∧ g a = .ok b := by
  cases x with
  | error e => exact iff_of_false nofun (by simp)
  | ok a => exact ⟨fun h => ⟨a, rfl, h⟩, fun ⟨_, rfl, h⟩ => h⟩

theorem map_eq_ok_iff {ε α β : Type} {x : Except ε α} {g : α → β} {b : β} :
    x.map g = .ok b ↔ ∃ a, x = .ok a ∧ g a = b := by
  cases x with
  | error e => exact iff_of_false nofun (by simp)
  | ok a => simp [Except.map]

namespace Weekday

/-- The first and the last day of a range. A day alone is the last one as well, or if a step
follows runs to Saturday. -/
inductive RangeDays : Bool → List Char → Nat → Nat → Prop
  | all {stepped} : RangeDays stepped ['*'] 0 6
  | any {stepped} : RangeDays stepped ['?'] 0 6
  | between {stepped cs ds m n} : Unsigned cs m → Unsigned ds n → m ≤ n → n ≤ 7 →
      RangeDays stepped (cs ++ '-' :: ds) m n
  | alone {cs n} : Unsigned cs n → n ≤ 7 → RangeDays false cs n n
  | onward {cs n} : Unsigned cs n → n ≤ 6 → RangeDays true cs n 6

/-- The first day, the last day and the step of an item in numbers. -/
inductive ItemDays : List Char → Nat → Nat → Nat → Prop
  | plain {cs m n} : RangeDays false cs m n → ItemDays cs m n 1
  | stepped {cs ds m n k} : RangeDays true cs m n → Unsigned ds k → 0 < k →
      k < 18446744073709551616 → ItemDays (cs ++ '/' :: ds) m n k

variable {mark : Char} {cs ds : List Char} {m n k : Nat}

theorem splitOnce_append_cons (h : mark ∉ cs) (ds : List Char) :
    splitOnce mark (cs ++ mark :: ds) = some (cs, ds) := by
  have hcs : ∀ c ∈ cs, decide (c ≠ mark) = true := fun c hc =>
    decide_eq_true (ne_of_mem_of_not_mem hc h)
  simp only [splitOnce, List.dropWhile_append_of_pos hcs, List.takeWhile_append_of_pos hcs]
  simp

theorem splitOnce_eq_none (h : mark ∉ cs) : splitOnce mark cs = none := by
  have hcs : ∀ c ∈ cs, decide (c ≠ mark) = true := fun c hc =>
    decide_eq_true (ne_of_mem_of_not_mem hc h)
  rw [splitOnce, List.dropWhile_eq_nil_iff.2 hcs]

theorem day_eq_ok_iff : day cs = .ok n ↔ Unsigned cs n ∧ n ≤ 7 := by
  rw [← natOfSigned?_eq_some_iff, day]
  cases natOfSigned? cs with
  | none => simp
  | some k =>
    simp only [Option.some.injEq]
    split
    · simp; omega
    · simp; omega

theorem step_eq_ok_iff : step cs = .ok k ↔ Unsigned cs k ∧ 0 < k ∧ k < 18446744073709551616 := by
  rw [← natOfSigned?_eq_some_iff, step]
  cases natOfSigned? cs with
  | none => simp
  | some n =>
    simp only [Option.some.injEq]
    split
    · simp; omega
    · split
      · simp; omega
      · simp; omega

theorem bounds_between (stepped : Bool) (h : '-' ∉ cs) : bounds (cs ++ '-' :: ds) stepped =
    day cs >>= fun m => (day ds).map fun n => (m, n) := by
  have hmark : ¬ (cs ++ '-' :: ds = ['*'] ∨ cs ++ '-' :: ds = ['?']) := by
    have hmem : '-' ∈ cs ++ '-' :: ds := List.mem_append_right _ List.mem_cons_self
    rintro (he | he) <;> exact absurd (he ▸ hmem) (by decide)
  rw [bounds, if_neg hmark, splitOnce_append_cons h]
  rfl

theorem bounds_alone {stepped : Bool} (h : '-' ∉ cs) (hmark : ¬ (cs = ['*'] ∨ cs = ['?'])) :
    bounds cs stepped = (day cs).map fun n => (n, if stepped then 6 else n) := by
  rw [bounds, if_neg hmark, splitOnce_eq_none h]
  rfl

theorem RangeDays.le {stepped : Bool} (h : RangeDays stepped cs m n) : m ≤ n ∧ n ≤ 7 := by
  cases h with
  | all | any => decide
  | between _ _ hle hn => exact ⟨hle, hn⟩
  | alone _ hn => exact ⟨le_rfl, hn⟩
  | onward _ hn => exact ⟨hn, by decide⟩

theorem bounds_of_rangeDays {stepped : Bool} (h : RangeDays stepped cs m n) :
    bounds cs stepped = .ok (m, n) := by
  cases h with
  | all => rfl
  | any => rfl
  | between hm hn hle hmax =>
    rw [bounds_between _ (hm.not_mem (by decide)), day_eq_ok_iff.2 ⟨hm, hle.trans hmax⟩,
      day_eq_ok_iff.2 ⟨hn, hmax⟩]
    rfl
  | alone hn hmax =>
    rw [bounds_alone (hn.not_mem (by decide)) hn.ne_mark, day_eq_ok_iff.2 ⟨hn, hmax⟩]
    rfl
  | onward hn hmax =>
    rw [bounds_alone (hn.not_mem (by decide)) hn.ne_mark,
      day_eq_ok_iff.2 ⟨hn, hmax.trans (by decide)⟩]
    rfl

theorem rangeDays_of_bounds {stepped : Bool} (h : bounds cs stepped = .ok (m, n)) (hle : m ≤ n) :
    RangeDays stepped cs m n := by
  by_cases hmark : cs = ['*'] ∨ cs = ['?']
  · rcases hmark with rfl | rfl
    · cases h
      exact .all
    · cases h
      exact .any
  by_cases hdash : '-' ∈ cs
  · obtain ⟨first, last, rfl, hfirst⟩ := List.eq_append_cons_of_mem hdash
    rw [bounds_between _ hfirst, bind_eq_ok_iff] at h
    obtain ⟨a, ha, h⟩ := h
    obtain ⟨b, hb, he⟩ := map_eq_ok_iff.1 h
    cases he
    rw [day_eq_ok_iff] at ha hb
    exact .between ha.1 hb.1 hle hb.2
  · rw [bounds_alone hdash hmark, map_eq_ok_iff] at h
    obtain ⟨a, ha, he⟩ := h
    cases he
    rw [day_eq_ok_iff] at ha
    cases stepped with
    | false => exact .alone ha.1 ha.2
    | true => exact .onward ha.1 hle

/-- The days from one to another, every so many of them. -/
def daysFrom (m n k : Nat) : List Nat :=
  List.range' m ((n - m) / k + 1) k

theorem mem_daysFrom (hle : m ≤ n) (hk : 0 < k) {d : Nat} :
    d ∈ daysFrom m n k ↔ (m ≤ d ∧ d ≤ n) ∧ k ∣ d - m := by
  rw [daysFrom, List.mem_range']
  constructor
  · rintro ⟨i, hi, rfl⟩
    have hle' : k * i ≤ n - m := (Nat.mul_le_mul_left k (Nat.lt_succ_iff.1 hi)).trans
      (Nat.mul_div_le ..)
    rw [Nat.add_sub_cancel_left]
    exact ⟨by omega, Nat.dvd_mul_right k i⟩
  · rintro ⟨⟨hm, hn⟩, i, hi⟩
    refine ⟨i, Nat.lt_succ_iff.2 ((Nat.le_div_iff_mul_le hk).2 ?_), by omega⟩
    rw [Nat.mul_comm, ← hi]
    omega

theorem filter_range_eq (hle : m ≤ n) (hk : 0 < k) :
    (List.range (n + 1)).filter (fun d => m ≤ d && (d - m) % k == 0) = daysFrom m n k := by
  refine (List.pairwise_lt_range.filter _).eq_of_mem_iff (List.pairwise_lt_range' k hk) fun d => ?_
  rw [mem_daysFrom hle hk, List.mem_filter, List.mem_range, Nat.dvd_iff_mod_eq_zero,
    Bool.and_eq_true, decide_eq_true_eq, beq_iff_eq]
  omega

theorem listed_eq_ok_iff {stepped : Bool} {ns : List Nat} (hk : 0 < k) :
    (do
      let ends ← bounds cs stepped
      if ends.2 < ends.1 then .error (Fault.descending cs)
      else pure ((List.range (ends.2 + 1)).filter fun d =>
        ends.1 ≤ d && (d - ends.1) % k == 0)) = .ok ns ↔
    ∃ m n, RangeDays stepped cs m n ∧ ns = daysFrom m n k := by
  rw [bind_eq_ok_iff]
  constructor
  · rintro ⟨⟨m, n⟩, hb, h⟩
    split at h
    · cases h
    · rename_i hle
      rw [not_lt] at hle
      cases h
      exact ⟨m, n, rangeDays_of_bounds hb hle, filter_range_eq hle hk⟩
  · rintro ⟨m, n, hr, rfl⟩
    refine ⟨(m, n), bounds_of_rangeDays hr, ?_⟩
    rw [if_neg hr.le.1.not_gt, filter_range_eq hr.le.1 hk]
    rfl

theorem days_plain (h : '/' ∉ cs) {ns : List Nat} :
    days cs = .ok ns ↔ ∃ m n, RangeDays false cs m n ∧ ns = daysFrom m n 1 := by
  rw [days, splitOnce_eq_none h]
  exact listed_eq_ok_iff Nat.one_pos

theorem days_stepped (h : '/' ∉ cs) {ns : List Nat} : days (cs ++ '/' :: ds) = .ok ns ↔
    ∃ k, step ds = .ok k ∧ ∃ m n, RangeDays true cs m n ∧ ns = daysFrom m n k := by
  rw [days, splitOnce_append_cons h, bind_eq_ok_iff]
  constructor
  · rintro ⟨_, hread, h⟩
    obtain ⟨k, hk, rfl⟩ := map_eq_ok_iff.1 hread
    exact ⟨k, hk, (listed_eq_ok_iff (step_eq_ok_iff.1 hk).2.1).1 h⟩
  · rintro ⟨k, hk, h⟩
    exact ⟨(cs, some k), map_eq_ok_iff.2 ⟨k, hk, rfl⟩,
      (listed_eq_ok_iff (step_eq_ok_iff.1 hk).2.1).2 h⟩

theorem RangeDays.not_mem {stepped : Bool} (h : RangeDays stepped cs m n) {c : Char}
    (hc : ¬ (c.isDigit = true ∨ c = '+')) (hmark : c ∉ ['*', '?', '-']) : c ∉ cs := by
  cases h with
  | all => exact fun h => hmark (by simp [List.mem_singleton.1 h])
  | any => exact fun h => hmark (by simp [List.mem_singleton.1 h])
  | between hm hn =>
    intro h
    rcases List.mem_append.1 h with h | h
    · exact hm.not_mem hc h
    · rcases List.mem_cons.1 h with rfl | h
      · exact hmark (by simp)
      · exact hn.not_mem hc h
  | alone hn => exact hn.not_mem hc
  | onward hn => exact hn.not_mem hc

theorem ItemDays.not_mem (h : ItemDays cs m n k) {c : Char}
    (hc : ¬ (c.isDigit = true ∨ c = '+')) (hmark : c ∉ ['*', '?', '-', '/']) : c ∉ cs := by
  have hmark' : c ∉ ['*', '?', '-'] := fun h => hmark (List.mem_append_left ['/'] h)
  cases h with
  | plain hr => exact hr.not_mem hc hmark'
  | stepped hr hk =>
    intro h
    rcases List.mem_append.1 h with h | h
    · exact hr.not_mem hc hmark' h
    · rcases List.mem_cons.1 h with rfl | h
      · exact hmark (by simp)
      · exact hk.not_mem hc h

theorem days_eq_ok_iff {ns : List Nat} :
    days cs = .ok ns ↔ ∃ m n k, ItemDays cs m n k ∧ ns = daysFrom m n k := by
  constructor
  · intro h
    by_cases hslash : '/' ∈ cs
    · obtain ⟨range, every, rfl, hrange⟩ := List.eq_append_cons_of_mem hslash
      obtain ⟨k, hk, m, n, hr, rfl⟩ := (days_stepped hrange).1 h
      obtain ⟨hk, hpos, hmax⟩ := step_eq_ok_iff.1 hk
      exact ⟨m, n, k, .stepped hr hk hpos hmax, rfl⟩
    · obtain ⟨m, n, hr, rfl⟩ := (days_plain hslash).1 h
      exact ⟨m, n, 1, .plain hr, rfl⟩
  · rintro ⟨m, n, k, h, rfl⟩
    cases h with
    | plain hr =>
      exact (days_plain (hr.not_mem (by decide) (by decide))).2 ⟨m, n, hr, rfl⟩
    | stepped hr hk hpos hmax =>
      exact (days_stepped (hr.not_mem (by decide) (by decide))).2
        ⟨k, step_eq_ok_iff.2 ⟨hk, hpos, hmax⟩, m, n, hr, rfl⟩

/-- An item and the items that are written in its place. -/
inductive Rewritten : List Char → List (List Char) → Prop
  | letters {item} : (∃ c ∈ item, c.isAlpha = true) → Rewritten item [item]
  | days {item m n k} : ItemDays item m n k →
      Rewritten item ((daysFrom m n k).map fun d => digits (d % 7 + 1))

theorem ItemDays.no_letter (h : ItemDays cs m n k) : ¬ ∃ c ∈ cs, c.isAlpha = true := by
  rintro ⟨c, hmem, hc⟩
  refine h.not_mem ?_ ?_ hmem
  · rintro (hdigit | rfl)
    · rw [Grammar.not_isDigit_of_isAlpha hc] at hdigit
      cases hdigit
    · cases hc
  · intro hmark
    simp only [List.mem_cons, List.not_mem_nil, or_false] at hmark
    rcases hmark with rfl | rfl | rfl | rfl <;> cases hc

theorem renumberItem_eq_ok_iff {item : List Char} {pieces : List (List Char)} :
    renumberItem item = .ok pieces ↔ Rewritten item pieces := by
  unfold renumberItem
  constructor
  · intro h
    split at h
    · rename_i hletter
      cases h
      exact .letters (List.any_eq_true.1 hletter)
    · obtain ⟨ns, hns, rfl⟩ := map_eq_ok_iff.1 h
      obtain ⟨m, n, k, hdays, rfl⟩ := days_eq_ok_iff.1 hns
      exact .days hdays
  · intro h
    cases h with
    | letters hletter => exact if_pos (List.any_eq_true.2 hletter)
    | days hdays =>
      rw [if_neg fun h => hdays.no_letter (List.any_eq_true.1 h),
        days_eq_ok_iff.2 ⟨_, _, _, hdays, rfl⟩]
      rfl

theorem forall_mem_of_forall₂ {α β : Type} {R : α → β → Prop} {as : List α} {bs : List β}
    (h : List.Forall₂ R as bs) : ∀ b ∈ bs, ∃ a ∈ as, R a b := by
  induction h with
  | nil => simp
  | cons hab _ ih =>
    rw [List.forall_mem_cons]
    refine ⟨⟨_, List.mem_cons_self, hab⟩, fun b hb => ?_⟩
    obtain ⟨a, ha, hab⟩ := ih b hb
    exact ⟨a, List.mem_cons_of_mem _ ha, hab⟩

theorem exists_forall₂_iff {α β : Type} {R : α → β → Prop} {as : List α} :
    (∃ bs, List.Forall₂ R as bs) ↔ ∀ a ∈ as, ∃ b, R a b := by
  induction as with
  | nil => simp
  | cons a as ih =>
    rw [List.forall_mem_cons, ← ih]
    constructor
    · rintro ⟨_, h⟩
      obtain ⟨b, bs, hb, hbs, -⟩ := List.forall₂_cons_left_iff.1 h
      exact ⟨⟨b, hb⟩, bs, hbs⟩
    · rintro ⟨⟨b, hb⟩, bs, hbs⟩
      exact ⟨b :: bs, .cons hb hbs⟩

theorem mapM_eq_ok_iff {ε α β : Type} {g : α → Except ε β} {as : List α} {bs : List β} :
    as.mapM g = .ok bs ↔ List.Forall₂ (fun a b => g a = .ok b) as bs := by
  induction as generalizing bs with
  | nil =>
    rw [List.forall₂_nil_left_iff]
    exact ⟨fun h => (Except.ok.inj h).symm, fun h => h ▸ rfl⟩
  | cons a as ih =>
    rw [List.mapM_cons, bind_eq_ok_iff, List.forall₂_cons_left_iff]
    constructor
    · rintro ⟨b, hb, h⟩
      obtain ⟨bs', hbs, h⟩ := bind_eq_ok_iff.1 h
      cases h
      exact ⟨b, bs', hb, ih.1 hbs, rfl⟩
    · rintro ⟨b, bs', hb, hbs, rfl⟩
      exact ⟨b, hb, bind_eq_ok_iff.2 ⟨bs', ih.2 hbs, rfl⟩⟩

theorem splitAll_eq_splitOn (mark : Char) (cs : List Char) :
    splitAll mark cs = cs.splitOn mark := by
  induction cs with
  | nil => rfl
  | cons c cs ih =>
    rw [splitAll, List.splitOn_cons_eq_if_modifyHead, ih]
    by_cases hc : c = mark
    · rw [if_pos hc, if_pos (beq_iff_eq.2 hc)]
    · rw [if_neg hc, if_neg (by simpa using hc)]
      cases hpieces : cs.splitOn mark with
      | nil => exact absurd hpieces (List.splitOn_ne_nil mark cs)
      | cons piece pieces => rfl

theorem joinWith_eq_intercalate (mark : Char) (pieces : List (List Char)) :
    joinWith mark pieces = [mark].intercalate pieces := by
  fun_induction joinWith mark pieces with
  | case1 => rfl
  | case2 piece => exact List.intercalate_singleton.symm
  | case3 piece pieces hne ih =>
    rw [ih, List.intercalate_cons_of_ne_nil fun h => hne h, List.append_assoc]
    rfl

theorem not_mem_of_mem_splitOn {mark : Char} {piece : List Char} (h : piece ∈ cs.splitOn mark) :
    mark ∉ piece := by
  induction cs generalizing piece with
  | nil =>
    rw [List.splitOn_nil, List.mem_singleton] at h
    exact h ▸ List.not_mem_nil
  | cons c cs ih =>
    rw [List.splitOn_cons_eq_if_modifyHead] at h
    split at h
    · rcases List.mem_cons.1 h with rfl | h
      · exact List.not_mem_nil
      · exact ih h
    · rename_i hc
      cases hpieces : cs.splitOn mark with
      | nil => exact absurd hpieces (List.splitOn_ne_nil mark cs)
      | cons first pieces =>
        rw [hpieces] at h ih
        rcases List.mem_cons.1 h with rfl | h
        · rw [List.mem_cons, not_or]
          exact ⟨fun he => hc (by simp [he]), ih List.mem_cons_self⟩
        · exact ih (List.mem_cons_of_mem _ h)

theorem renumberField_eq_ok_iff {field out : List Char} : renumberField field = .ok out ↔
    if field = ['*'] ∨ field = ['?'] then out = field
    else ∃ pieces, List.Forall₂ Rewritten (field.splitOn ',') pieces ∧
      out = [','].intercalate pieces.flatten := by
  unfold renumberField
  split
  · exact ⟨fun h => (Except.ok.inj h).symm, fun h => h ▸ rfl⟩
  · have hitems : (fun item pieces => renumberItem item = .ok pieces) = Rewritten := by
      funext item pieces
      exact propext renumberItem_eq_ok_iff
    rw [bind_eq_ok_iff, splitAll_eq_splitOn]
    simp only [mapM_eq_ok_iff, hitems, joinWith_eq_intercalate]
    refine exists_congr fun pieces => and_congr_right fun _ => ?_
    exact ⟨fun h => (Except.ok.inj h).symm, fun h => h ▸ rfl⟩

theorem Rewritten.pieces {item : List Char} {pieces : List (List Char)}
    (h : Rewritten item pieces)
    (hitem : ',' ∉ item) : pieces ≠ [] ∧ ∀ piece ∈ pieces, piece ≠ [] ∧ ',' ∉ piece := by
  cases h with
  | letters hletter =>
    obtain ⟨c, hc, -⟩ := hletter
    refine ⟨List.cons_ne_nil item [], fun piece hpiece => ?_⟩
    rw [List.mem_singleton.1 hpiece]
    exact ⟨List.ne_nil_of_mem hc, hitem⟩
  | days h =>
    constructor
    · simp [daysFrom]
    · intro piece hpiece
      obtain ⟨d, -, rfl⟩ := List.mem_map.1 hpiece
      refine ⟨List.ne_nil_of_length_pos (length_digits_pos _), fun hcomma => ?_⟩
      exact absurd (Nat.isDigit_of_mem_toDigits (by decide) (by decide) hcomma) (by decide)

variable {field out item : List Char}

theorem pieces_of_rewritten {pieces : List (List (List Char))}
    (h : List.Forall₂ Rewritten (field.splitOn ',') pieces) :
    pieces.flatten ≠ [] ∧ ∀ piece ∈ pieces.flatten, piece ≠ [] ∧ ',' ∉ piece := by
  have hpieces : ∀ ps ∈ pieces, ps ≠ [] ∧ ∀ piece ∈ ps, piece ≠ [] ∧ ',' ∉ piece := by
    intro ps hps
    obtain ⟨item, hitem, hr⟩ := forall_mem_of_forall₂ h ps hps
    exact hr.pieces (not_mem_of_mem_splitOn hitem)
  constructor
  · obtain ⟨item, items, hitems⟩ := List.exists_cons_of_ne_nil (List.splitOn_ne_nil ',' field)
    rw [hitems] at h
    obtain ⟨ps, _, -, -, rfl⟩ := List.forall₂_cons_left_iff.1 h
    intro hnil
    exact (hpieces ps List.mem_cons_self).1 (List.flatten_eq_nil_iff.1 hnil ps List.mem_cons_self)
  · intro piece hpiece
    obtain ⟨ps, hps, hpiece⟩ := List.mem_flatten.1 hpiece
    exact (hpieces ps hps).2 piece hpiece

theorem exists_rewritten_iff : (∃ pieces, Rewritten item pieces) ↔
    ((∀ c ∈ item, c.isAlpha = false) → ∃ m n k, ItemDays item m n k) := by
  constructor
  · rintro ⟨_, h⟩ hplain
    cases h with
    | letters hletter =>
      obtain ⟨c, hmem, hc⟩ := hletter
      rw [hplain c hmem] at hc
      cases hc
    | days h => exact ⟨_, _, _, h⟩
  · intro h
    by_cases hletter : ∃ c ∈ item, c.isAlpha = true
    · exact ⟨_, .letters hletter⟩
    · obtain ⟨m, n, k, h⟩ := h fun c hc => Bool.eq_false_iff.2 fun hc' => hletter ⟨c, hc, hc'⟩
      exact ⟨_, .days h⟩

theorem renumberField_isOk_iff : (∃ out, renumberField field = .ok out) ↔
    ∀ item ∈ field.splitOn ',',
      (∀ c ∈ item, c.isAlpha = false) → ∃ m n k, ItemDays item m n k := by
  simp only [renumberField_eq_ok_iff]
  split
  · rename_i hmark
    refine iff_of_true ⟨field, rfl⟩ fun item hitem _ => ⟨0, 6, 1, .plain ?_⟩
    rcases hmark with rfl | rfl
    · rw [List.mem_singleton.1 hitem]
      exact .all
    · rw [List.mem_singleton.1 hitem]
      exact .any
  · simp only [← exists_rewritten_iff, ← exists_forall₂_iff]
    constructor
    · rintro ⟨_, pieces, h, -⟩
      exact ⟨pieces, h⟩
    · rintro ⟨pieces, h⟩
      exact ⟨_, pieces, h, rfl⟩

theorem renumbered_ne_nil (h : renumberField field = .ok out) : out ≠ [] := by
  rw [renumberField_eq_ok_iff] at h
  split at h
  · rename_i hmark
    rcases hmark with rfl | rfl <;> simp [h]
  · obtain ⟨pieces, hpieces, rfl⟩ := h
    obtain ⟨hne, hcommas⟩ := pieces_of_rewritten hpieces
    -- An empty text is one empty piece, and no piece is empty.
    intro hnil
    have hsplit := List.splitOn_intercalate ',' (fun piece hpiece => (hcommas piece hpiece).2) hne
    rw [hnil, List.splitOn_nil] at hsplit
    exact (hcommas [] (hsplit ▸ List.mem_cons_self)).1 rfl

end Weekday

end Snapshots.Cron
