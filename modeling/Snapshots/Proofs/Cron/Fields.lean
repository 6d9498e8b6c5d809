import Mathlib.Data.List.Forall2
import Snapshots.Cron.Schedule
import Snapshots.Proofs.Cron.Search
import Snapshots.Proofs.Cron.Soundness

/-! # Fields one after the other

The pattern of an expression whose words are fields, one word to a field, and what is known of the
pattern of any expression.
-/

namespace Snapshots.Cron

open Text

/-- An unbroken word without blanks. -/
structure Piece (t : List Char) : Prop extends Unbroken t where
  gapFree : ∀ c ∈ t, isGap c = false

theorem Solid.piece {t : List Char} (h : Solid t) : Piece t :=
  ⟨h.toUnbroken, h.whole.2.gapFree⟩

theorem FieldText.solid {f : Field} {cs : List Char} {S : Set Nat} (h : FieldText f cs S) :
    Solid cs := by
  obtain ⟨items, spans, hitems, -⟩ := h.written
  exact hitems.solid

def behind (ts : List (List Char)) : List Char :=
  if ts = [] then [] else ' ' :: Weekday.joinWith ' ' ts

theorem joinWith_cons (t : List Char) (ts : List (List Char)) :
    Weekday.joinWith ' ' (t :: ts) = t ++ behind ts := by
  cases ts with
  | nil => exact (List.append_nil t).symm
  | cons => rfl

theorem Piece.exists_head {t : List Char} (h : Piece t) (r : List Char) :
    ∃ c ∈ (t ++ r).head?, isConnector c = false ∧ isGap c = false := by
  obtain ⟨c, hc, hconnector⟩ := h.head
  obtain ⟨t, rfl⟩ := List.head?_eq_some_iff.1 hc
  exact ⟨c, rfl, hconnector, h.gapFree c List.mem_cons_self⟩

theorem dropWhile_behind {ts : List (List Char)} (h : ∀ t ∈ ts, Piece t) :
    (behind ts).dropWhile isGap = Weekday.joinWith ' ' ts := by
  cases ts with
  | nil => rfl
  | cons t ts =>
    have ht := h t List.mem_cons_self
    rw [behind, if_neg (by simp), List.dropWhile_cons_of_pos (by decide), joinWith_cons]
    exact dropWhile_append_of_gapFree ht.ne_nil ht.gapFree

theorem apart_behind {ts : List (List Char)} (h : ∀ t ∈ ts, Piece t) :
    Apart [',', '-', '/'] (behind ts) := by
  constructor
  · intro c hc
    cases ts with
    | nil => cases hc
    | cons t ts =>
      rw [behind, if_neg (by simp)] at hc
      cases hc
      decide
  · rw [dropWhile_behind h]
    intro c hc
    cases ts with
    | nil => cases hc
    | cons t ts =>
      obtain ⟨d, hd, hconnector, -⟩ := (h t List.mem_cons_self).exists_head (behind ts)
      rw [joinWith_cons, Option.mem_def.1 hd] at hc
      cases hc
      simpa [isConnector, and_assoc] using hconnector

/-- The values that a pattern allows in a field. -/
def Pattern.column (p : Pattern) : Field → List Nat
  | .second => p.seconds
  | .minute => p.minutes
  | .hour => p.hours
  | .dayOfMonth => p.daysOfMonth
  | .month => p.months
  | .dayOfWeek => p.daysOfWeek
  | .year => p.years

/-- The pattern of these sets of values in the six fields, over all years. -/
structure Pattern.Spells (p : Pattern) (A : Field → Set Nat) : Prop where
  values : ∀ f, f ≠ .year → ∀ n, n ∈ p.column f ↔ n ∈ A f
  years : ∀ n, n ∈ p.years ↔ 1970 ≤ n ∧ n ≤ 2100

namespace Grammar

def fields : List Field → List Char → Option (List (List Nat) × List Char)
  | [], cs => some ([], cs)
  | f :: fs, cs => (field f cs).bind fun x => (fields fs x.2).map fun y => (x.1 :: y.1, y.2)

def sixFields : List Field :=
  [.second, .minute, .hour, .dayOfMonth, .month, .dayOfWeek]

def allYears : List Nat :=
  (List.range 2101).filter (1970 ≤ ·)

theorem mem_allYears {n : Nat} : n ∈ allYears ↔ 1970 ≤ n ∧ n ≤ 2100 := by
  rw [allYears, List.mem_filter, List.mem_range, decide_eq_true_eq]
  omega

theorem fields_cons_eq_some_iff {f : Field} {fs : List Field} {cs rest : List Char}
    {vs : List (List Nat)} : fields (f :: fs) cs = some (vs, rest) ↔ ∃ v more vs',
      field f cs = some (v, more) ∧ fields fs more = some (vs', rest) ∧ vs = v :: vs' := by
  rw [fields]
  constructor
  · intro h
    obtain ⟨⟨v, more⟩, hv, h⟩ := Option.bind_eq_some_iff.1 h
    obtain ⟨⟨vs', left⟩, hvs, h⟩ := Option.map_eq_some_iff.1 h
    cases h
    exact ⟨v, more, vs', hv, hvs, rfl⟩
  · rintro ⟨v, more, vs', hv, hvs, rfl⟩
    rw [hv, Option.bind_some, hvs]
    rfl

theorem pattern?_eq_some_iff {cs : List Char} {p : Pattern} :
    pattern? cs = some p ↔ ∃ rest, fields sixFields cs = some (sixFields.map p.column, rest) ∧
      (field .year rest).getD (allYears, rest) = (p.years, []) := by
  simp only [sixFields, fields_cons_eq_some_iff, List.map_cons, Pattern.column]
  constructor
  · intro h
    obtain ⟨⟨s, cs₁⟩, hs, h⟩ := Option.bind_eq_some_iff.1 h
    obtain ⟨⟨m, cs₂⟩, hm, h⟩ := Option.bind_eq_some_iff.1 h
    obtain ⟨⟨o, cs₃⟩, ho, h⟩ := Option.bind_eq_some_iff.1 h
    obtain ⟨⟨d, cs₄⟩, hd, h⟩ := Option.bind_eq_some_iff.1 h
    obtain ⟨⟨n, cs₅⟩, hn, h⟩ := Option.bind_eq_some_iff.1 h
    obtain ⟨⟨w, cs₆⟩, hw, h⟩ := Option.bind_eq_some_iff.1 h
    dsimp only at h
    rw [← allYears] at h
    generalize hyears : (field .year cs₆).getD (allYears, cs₆) = y at h
    obtain ⟨years, rest⟩ := y
    dsimp only at h
    split at h
    · cases h
      rw [‹rest = []›] at hyears
      exact ⟨cs₆, ⟨s, cs₁, _, hs, ⟨m, cs₂, _, hm, ⟨o, cs₃, _, ho, ⟨d, cs₄, _, hd, ⟨n, cs₅, _, hn,
        ⟨w, cs₆, [], hw, rfl, rfl⟩, rfl⟩, rfl⟩, rfl⟩, rfl⟩, rfl⟩, hyears⟩
    · cases h
  · rintro ⟨_, ⟨s, cs₁, _, hs, ⟨m, cs₂, _, hm, ⟨o, cs₃, _, ho, ⟨d, cs₄, _, hd, ⟨n, cs₅, _, hn,
      ⟨w, cs₆, _, hw, hnil, rfl⟩, rfl⟩, rfl⟩, rfl⟩, rfl⟩, hcolumns⟩, hyears⟩
    cases hnil
    obtain ⟨seconds, minutes, hours, daysOfMonth, months, daysOfWeek, years⟩ := p
    cases hcolumns
    simp only [pattern?, bind, hs, hm, ho, hd, hn, hw, Option.bind_some]
    rw [← allYears, hyears]
    rfl

theorem field_values {f : Field} {cs rest : List Char} {v : List Nat}
    (h : field f cs = some (v, rest)) :
    v.Pairwise (· < ·) ∧ ∀ n ∈ v, f.low ≤ n ∧ n ≤ f.high := by
  rw [field_eq] at h
  obtain ⟨⟨i, left⟩, -, h⟩ := Option.bind_eq_some_iff.1 h
  obtain ⟨_, hv, h⟩ := Option.map_eq_some_iff.1 h
  cases h
  obtain ⟨-, -, -, hlimits⟩ := Field.values?_spec hv
  exact hlimits

theorem pattern?_ordered {cs : List Char} {p : Pattern} (h : pattern? cs = some p) : p.Ordered := by
  obtain ⟨rest, hfields, hyears⟩ := pattern?_eq_some_iff.1 h
  simp only [sixFields, fields_cons_eq_some_iff, List.map_cons, Pattern.column] at hfields
  obtain ⟨s, cs₁, _, hs, ⟨m, cs₂, _, hm, ⟨o, cs₃, _, ho, -, rfl⟩, rfl⟩, hcolumns⟩ := hfields
  simp only [List.cons.injEq] at hcolumns
  obtain ⟨rfl, rfl, rfl, -⟩ := hcolumns
  have hyear : ∀ y ∈ p.years, 1970 ≤ y ∧ y ≤ 2100 := by
    cases hy : field .year rest with
    | none =>
      rw [hy] at hyears
      rw [← (Prod.mk.inj hyears).1]
      exact fun y hy => mem_allYears.1 hy
    | some y =>
      obtain ⟨v, left⟩ := y
      rw [hy] at hyears
      cases hyears
      exact (field_values hy).2
  constructor
  · exact (field_values hs).1
  · exact (field_values hm).1
  · exact (field_values ho).1
  · exact fun n hn => Nat.lt_succ_of_le ((field_values hs).2 n hn).2
  · exact fun n hn => Nat.lt_succ_of_le ((field_values hm).2 n hn).2
  · exact fun n hn => Nat.lt_succ_of_le ((field_values ho).2 n hn).2
  · exact hyear

variable {fs : List Field} {ts : List (List Char)}

theorem fields_written {A : Field → Set Nat}
    (h : List.Forall₂ (fun f t => FieldText f t (A f)) fs ts) : (∀ t ∈ ts, Piece t) ∧
      ∃ vs, fields fs (Weekday.joinWith ' ' ts) = some (vs, []) ∧
        List.Forall₂ (fun f v => ∀ n, n ∈ v ↔ n ∈ A f) fs vs := by
  induction h with
  | nil => exact ⟨by simp, [], rfl, .nil⟩
  | @cons f t fs ts hf _ ih =>
    obtain ⟨hts, vs, hvs, hvalues⟩ := ih
    obtain ⟨v, hv, hvalue⟩ := field_written hf
    have ht := hf.solid.piece
    refine ⟨List.forall_mem_cons.2 ⟨ht, hts⟩, v :: vs, ?_, .cons hvalue hvalues⟩
    have hrel := field_follows f ht.ne_nil (ht.whole ht.gapFree) (apart_behind hts)
    rw [hv, dropWhile_behind hts] at hrel
    rw [joinWith_cons]
    refine fields_cons_eq_some_iff.2 ⟨v, Weekday.joinWith ' ' ts, vs, ?_, hvs, rfl⟩
    generalize field f (t ++ behind ts) = y at hrel
    cases hrel with
    | some hy => exact congrArg some (Prod.ext hy.1.symm hy.2.2)

theorem fields_unbroken {column : Field → List Nat} {rest : List Char} (hts : ∀ t ∈ ts, Piece t)
    (hlen : fs.length = ts.length)
    (h : fields fs (Weekday.joinWith ' ' ts) = some (fs.map column, rest)) :
    (rest = [] ∧ List.Forall₂ (fun f t => FieldText f t {n | n ∈ column f}) fs ts) ∨
      Stuck rest := by
  induction fs generalizing ts with
  | nil =>
    obtain rfl := List.eq_nil_of_length_eq_zero hlen.symm
    cases h
    exact .inl ⟨rfl, .nil⟩
  | cons f fs ih =>
    cases ts with
    | nil => cases hlen
    | cons t ts =>
      obtain ⟨ht, hts⟩ := List.forall_mem_cons.1 hts
      rw [joinWith_cons] at h
      obtain ⟨v, more, vs, hv, hmore, hcolumns⟩ := fields_cons_eq_some_iff.1 h
      obtain ⟨rfl, rfl⟩ := List.cons.inj hcolumns
      rcases field_unbroken ht.toUnbroken ht.gapFree (apart_behind hts) hv with
        ⟨hread, rfl⟩ | hstuck
      · rw [dropWhile_behind hts] at hmore
        rcases ih hts (Nat.succ.inj hlen) hmore with ⟨rfl, hrest⟩ | hstuck
        · exact .inl ⟨rfl, .cons (fieldText_of_field ht.gapFree hread) hrest⟩
        · exact .inr hstuck
      · cases fs with
        | nil =>
          cases hmore
          exact .inr hstuck
        | cons g fs =>
          obtain ⟨_, _, _, hread, -⟩ := fields_cons_eq_some_iff.1 hmore
          rw [field_stuck g hstuck] at hread
          cases hread

theorem pattern?_written {A : Field → Set Nat}
    (h : List.Forall₂ (fun f t => FieldText f t (A f)) sixFields ts) :
    ∃ p, pattern? (Weekday.joinWith ' ' ts) = some p ∧ p.Spells A := by
  obtain ⟨-, vs, hvs, hvalues⟩ := fields_written h
  -- The list of years is named, as it would be computed otherwise.
  obtain ⟨years, hyears⟩ : ∃ years, years = allYears := ⟨_, rfl⟩
  simp only [sixFields, List.forall₂_cons_left_iff, List.forall₂_nil_left_iff] at hvalues
  obtain ⟨s, _, hs, ⟨m, _, hm, ⟨o, _, ho, ⟨d, _, hd, ⟨n, _, hn, ⟨w, _, hw, rfl, rfl⟩, rfl⟩, rfl⟩,
    rfl⟩, rfl⟩, rfl⟩ := hvalues
  refine ⟨⟨s, m, o, d, n, w, years⟩, pattern?_eq_some_iff.2 ⟨[], hvs, ?_⟩, ?_, ?_⟩
  · rw [show field .year [] = none from rfl, Option.getD_none, ← hyears]
  · intro f hf
    cases f with
    | second => exact hs
    | minute => exact hm
    | hour => exact ho
    | dayOfMonth => exact hd
    | month => exact hn
    | dayOfWeek => exact hw
    | year => contradiction
  · intro n
    change n ∈ years ↔ _
    rw [hyears, mem_allYears]

/-- The pattern of six unbroken words is that of six fields, one word to a field. -/
theorem pattern?_unbroken {p : Pattern} (hts : ∀ t ∈ ts, Piece t) (hlen : ts.length = 6)
    (h : pattern? (Weekday.joinWith ' ' ts) = some p) :
    List.Forall₂ (fun f t => FieldText f t {n | n ∈ p.column f}) sixFields ts ∧
      p.years = allYears := by
  obtain ⟨rest, hfields, hyears⟩ := pattern?_eq_some_iff.1 h
  have hlen : sixFields.length = ts.length := hlen.symm
  rcases fields_unbroken hts hlen hfields with ⟨rfl, hread⟩ | hstuck
  · exact ⟨hread, (Prod.mk.inj hyears).1.symm⟩
  · rw [field_stuck .year hstuck] at hyears
    obtain ⟨c, hc, -⟩ := hstuck
    rw [(Prod.mk.inj hyears).2] at hc
    cases hc

end Grammar

namespace Schedule

theorem patternOf_eq_ok_iff {fields : List (List Char)} {p : Pattern} :
    patternOf fields = .ok p ↔ ∃ dayOfWeek,
      Weekday.renumberField (fields.getLastD []) = .ok dayOfWeek ∧
        Grammar.pattern? (Weekday.joinWith ' ' (fields.dropLast ++ [dayOfWeek])) = some p := by
  unfold patternOf
  cases Weekday.renumberField (fields.getLastD []) with
  | error e => simp [Except.mapError, bind, Except.bind]
  | ok dayOfWeek =>
    simp only [Except.mapError, bind, Except.bind, Except.ok.injEq, exists_eq_left']
    cases Grammar.pattern? _ with
    | none => simp
    | some q => simp

theorem ordered_of_parse {now : Time.Instant} {x : String} {s : Schedule}
    (h : parse now x = .ok s) : s.pattern.Ordered := by
  obtain ⟨-, -, hpattern, -⟩ := parse_eq_ok_iff.1 h
  obtain ⟨dayOfWeek, -, hp⟩ := patternOf_eq_ok_iff.1 hpattern
  exact Grammar.pattern?_ordered hp

end Schedule

end Snapshots.Cron
