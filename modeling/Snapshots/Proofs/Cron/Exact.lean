import Snapshots.Proofs.Cron.Fields

/-! # The fire times of an expression

An expression whose words are each a field fires at the whole seconds that all six fields allow,
from 1970 to 2100. It is refused exactly if none of them is left.
-/

namespace Snapshots.Cron

open Text Time

/-- Six words that are each a field, the last one as it is renumbered. -/
def Spelled (A : Field → Set Nat) (fields : List (List Char)) : Prop :=
  ∃ dayOfWeek, Weekday.renumberField (fields.getLastD []) = .ok dayOfWeek ∧
    List.Forall₂ (fun f t => FieldText f t (A f)) Grammar.sixFields (fields.dropLast ++ [dayOfWeek])

/-- An instant that all six fields allow. -/
structure Fires (A : Field → Set Nat) (t : Instant) : Prop where
  whole : t.nanos = 0
  second : t.secondOfDay % 60 ∈ A .second
  minute : t.secondOfDay / 60 % 60 ∈ A .minute
  hour : t.secondOfDay / 3600 ∈ A .hour
  dayOfMonth : t.date.day ∈ A .dayOfMonth
  month : t.date.month ∈ A .month
  dayOfWeek : weekday t.dayNumber + 1 ∈ A .dayOfWeek

variable {A : Field → Set Nat}

theorem Spelled.length_eq {ws : List (List Char)} (h : Spelled A ws) : ws.length = 6 := by
  obtain ⟨dayOfWeek, -, hfields⟩ := h
  have hlen := hfields.length_eq
  simp only [Grammar.sixFields, List.length_append, List.length_dropLast, List.length_cons,
    List.length_nil] at hlen
  omega

theorem Spelled.patternOf {ws : List (List Char)} (h : Spelled A ws) :
    ∃ p, Schedule.patternOf ws = .ok p ∧ p.Spells A ∧ p.Ordered := by
  obtain ⟨dayOfWeek, hword, hfields⟩ := h
  obtain ⟨p, hp, hspells⟩ := Grammar.pattern?_written hfields
  exact ⟨p, Schedule.patternOf_eq_ok_iff.2 ⟨dayOfWeek, hword, hp⟩, hspells,
    Grammar.pattern?_ordered hp⟩

namespace Pattern

theorem Spells.matches_iff {p : Pattern} (h : p.Spells A) {t : Instant} :
    p.Matches t ↔ Fires A t ∧ 1970 ≤ t.date.year ∧ t.date.year ≤ 2100 := by
  have hs := h.values .second (by decide)
  have hm := h.values .minute (by decide)
  have ho := h.values .hour (by decide)
  have hd := h.values .dayOfMonth (by decide)
  have hn := h.values .month (by decide)
  have hw := h.values .dayOfWeek (by decide)
  simp only [column] at hs hm ho hd hn hw
  have hday : p.allowsDay t.dayNumber = true ↔
      ((t.date.month ∈ A .month ∧ t.date.day ∈ A .dayOfMonth) ∧
        weekday t.dayNumber + 1 ∈ A .dayOfWeek) ∧
      1970 ≤ t.date.year ∧ t.date.year ≤ 2100 := by
    simp only [allowsDay, Bool.and_eq_true, List.contains_iff_mem, decide_eq_true_eq, hd, hn, hw,
      h.years, Instant.date]
    refine and_congr_right fun _ => ?_
    omega
  rw [Matches, hday, allowsSecond_iff, hs, hm, ho]
  constructor
  · rintro ⟨hwhole, ⟨⟨⟨hmonth, hdom⟩, hdow⟩, hyears⟩, hhour, hminute, hsecond⟩
    exact ⟨⟨hwhole, hsecond, hminute, hhour, hdom, hmonth, hdow⟩, hyears⟩
  · rintro ⟨⟨hwhole, hsecond, hminute, hhour, hdom, hmonth, hdow⟩, hyears⟩
    exact ⟨hwhole, ⟨⟨⟨hmonth, hdom⟩, hdow⟩, hyears⟩, hhour, hminute, hsecond⟩

end Pattern

theorem exists_instant {d : Int} {n : Nat} (hd : 0 ≤ d ∧ d ≤ Pattern.lastDay)
    (hn : n < secondsPerDay) :
    ∃ u : Instant, u.nanos = 0 ∧ u.dayNumber = d ∧ u.secondOfDay = n := by
  unfold Pattern.lastDay at hd
  unfold secondsPerDay at hn
  refine ⟨⟨d * 86400 + n, 0, ?_, by decide, fun h => absurd h (by decide)⟩, rfl, ?_, ?_⟩
  · unfold firstSecond lastSecond
    omega
  · change (d * 86400 + n) / 86400 = d
    omega
  · change ((d * 86400 + n) % 86400).toNat = n
    omega

/-- A date and a time that the fields allow recur from 1970 on. -/
theorem Fires.exists_later {t : Instant} (h : Fires A t) (hyear : t.date.year ≤ 2100) :
    ∃ u, Fires A u ∧ t ≤ u ∧ 1970 ≤ u.date.year ∧ u.date.year ≤ 2100 := by
  by_cases hlow : 1970 ≤ t.date.year
  · exact ⟨t, h, le_refl t, hlow, hyear⟩
  · obtain ⟨m, hm, hweek, hmonth, hday⟩ := Date.exists_day_alike t.dayNumber
    have hfirst := (Date.year_le_iff m 1970).1 hm.1
    have hlast := (Date.year_le_iff m 2101).not.1 (by omega)
    have hbefore := (Date.year_le_iff t.dayNumber 1970).not.1 hlow
    simp only [Date.yearStart] at hfirst hlast hbefore
    have hsecond : t.secondOfDay < secondsPerDay := by
      unfold Instant.secondOfDay secondsPerDay
      omega
    obtain ⟨u, hnanos, hdayNumber, hsecondOfDay⟩ :=
      exists_instant (d := m) ⟨by omega, by unfold Pattern.lastDay; omega⟩ hsecond
    have hdate : u.date = Date.ofDayNumber m := by rw [Instant.date, hdayNumber]
    refine ⟨u, ⟨hnanos, ?_, ?_, ?_, ?_, ?_, ?_⟩, ?_, ?_⟩
    · exact hsecondOfDay ▸ h.second
    · exact hsecondOfDay ▸ h.minute
    · exact hsecondOfDay ▸ h.hour
    · rw [hdate, hday]
      exact h.dayOfMonth
    · rw [hdate, hmonth]
      exact h.month
    · rw [hdayNumber, hweek]
      exact h.dayOfWeek
    · rw [Instant.le_iff, Instant.lt_iff]
      unfold Instant.dayNumber secondsPerDay at *
      omega
    · rw [hdate]
      exact hm

/-- The instants from 1970 to 2100 that all six fields allow. -/
def fireTimes (A : Field → Set Nat) : Set Instant :=
  {t | Fires A t ∧ 1970 ≤ t.date.year ∧ t.date.year ≤ 2100}

namespace Pattern

variable {p : Pattern} {start : Instant}

theorem Spells.next?_finds (h : p.Spells A) (hp : p.Ordered) (hstart : Searchable start) :
    Finds (p.next? start) {t | t ∈ fireTimes A ∧ start < t} :=
  (hp.next?_finds hstart).congr fun _ => and_congr_left' h.matches_iff

theorem Spells.next?_eq_some_iff (h : p.Spells A) (hp : p.Ordered) (hstart : Searchable start)
    {t : Instant} :
    p.next? start = some t ↔ IsLeast {u | u ∈ fireTimes A ∧ start < u} t := by
  have hfinds := h.next?_finds hp hstart
  cases hn : p.next? start with
  | none =>
    rw [hn] at hfinds
    exact iff_of_false (by simp) fun hleast => Finds.none_iff.1 hfinds t hleast.1
  | some u =>
    rw [hn] at hfinds
    obtain ⟨hu, hle⟩ := hfinds
    rw [Option.some.injEq]
    constructor
    · rintro rfl
      exact ⟨hu, hle⟩
    · exact fun hleast => le_antisymm (hle hleast.1) (hleast.2 hu)

theorem Spells.next?_eq_none_iff (h : p.Spells A) (hp : p.Ordered) (hstart : Searchable start) :
    p.next? start = none ↔ ¬ ∃ t, Fires A t ∧ start < t ∧ t.date.year ≤ 2100 := by
  rw [hp.next?_eq_none_iff hstart]
  constructor
  · rintro hnone ⟨t, ht, hlt, hyear⟩
    obtain ⟨u, hu, hle, hyears⟩ := ht.exists_later hyear
    exact hnone u (h.matches_iff.2 ⟨hu, hyears⟩) (lt_of_lt_of_le hlt hle)
  · intro hnever t ht hlt
    obtain ⟨hfires, -, hyear⟩ := h.matches_iff.1 ht
    exact hnever ⟨t, hfires, hlt, hyear⟩

end Pattern

theorem Spelled.parse_eq {x : String} {now : Instant} (hx : Spelled A (words x.toList))
    (hnow : 0 ≤ now.date.year) : ∃ p : Pattern, (p.Spells A ∧ p.Ordered) ∧
      ((∃ t, Fires A t ∧ now < t ∧ t.date.year ≤ 2100) →
        Schedule.parse now x = .ok ⟨trim x, p⟩) ∧
      ((¬ ∃ t, Fires A t ∧ now < t ∧ t.date.year ≤ 2100) →
        Schedule.parse now x = .error (.neverFires x)) := by
  obtain ⟨p, hp, hspells, hordered⟩ := hx.patternOf
  have hnone := hspells.next?_eq_none_iff hordered (Pattern.searchable_of_year hnow)
  rw [Schedule.parse_eq, if_neg (by simp [hx.length_eq]), hp]
  dsimp only
  refine ⟨p, ⟨hspells, hordered⟩, fun h => if_neg ?_, fun h => if_pos ?_⟩
  · rw [Option.isNone_iff_eq_none, hnone]
    exact not_not.2 h
  · rw [Option.isNone_iff_eq_none, hnone]
    exact h

theorem Spelled.spells_of_parse {x : String} {now : Instant} {s : Schedule}
    (hx : Spelled A (words x.toList)) (hs : Schedule.parse now x = .ok s) :
    s.pattern.Spells A ∧ s.pattern.Ordered := by
  obtain ⟨p, hp, hspells, hordered⟩ := hx.patternOf
  obtain ⟨-, -, hpattern, -⟩ := Schedule.parse_eq_ok_iff.1 hs
  obtain rfl : s.pattern = p := Except.ok.inj (hpattern.symm.trans hp)
  exact ⟨hspells, hordered⟩

/-- An expression of six fields is accepted as long as some instant to come matches, and refused as
one that never fires otherwise. Once it is accepted, the search gives the first match after any
start, and a window all matches in it. No match before 1970 counts for these two. -/
theorem Spelled.fires_exactly {x : String} (hx : Spelled A (words x.toList)) :
    (∀ now : Instant, 0 ≤ now.date.year →
      ((∃ s, Schedule.parse now x = .ok s) ↔
        ∃ t, Fires A t ∧ now < t ∧ t.date.year ≤ 2100) ∧
      ((¬ ∃ s, Schedule.parse now x = .ok s) →
        Schedule.parse now x = .error (.neverFires x))) ∧
    ∀ now s, Schedule.parse now x = .ok s → ∀ start : Instant, 0 ≤ start.date.year →
      (∀ t, s.pattern.next? start = some t ↔ IsLeast {u | u ∈ fireTimes A ∧ start < u} t) ∧
      (s.pattern.next? start = none ↔ ∀ u ∈ fireTimes A, ¬ start < u) ∧
      ∀ stop, (s.pattern.between start stop).Pairwise (· < ·) ∧
        ∀ u, u ∈ s.pattern.between start stop ↔ u ∈ fireTimes A ∧ start < u ∧ u ≤ stop := by
  constructor
  · intro now hnow
    obtain ⟨p, -, hok, herror⟩ := hx.parse_eq hnow
    by_cases h : ∃ t, Fires A t ∧ now < t ∧ t.date.year ≤ 2100
    · exact ⟨iff_of_true ⟨_, hok h⟩ h, fun hn => absurd ⟨_, hok h⟩ hn⟩
    · refine ⟨iff_of_false ?_ h, fun _ => herror h⟩
      rintro ⟨s, hs⟩
      rw [herror h] at hs
      cases hs
  · intro now s hs start hstart
    obtain ⟨hspells, hordered⟩ := hx.spells_of_parse hs
    have hsearch := Pattern.searchable_of_year hstart
    refine ⟨fun t => hspells.next?_eq_some_iff hordered hsearch, ?_, fun stop => ⟨?_, fun u => ?_⟩⟩
    · rw [hordered.next?_eq_none_iff hsearch]
      exact forall_congr' fun u => imp_congr_left hspells.matches_iff
    · exact hordered.between_pairwise start stop
    · rw [hordered.mem_between_iff hsearch, hspells.matches_iff]
      rfl

/-- A noon of 29 February still to come. -/
theorem Spelled.fires_exactly_leap_day : ∃ (A : Field → Set Nat) (now t : Instant) (s : Schedule),
    Spelled A (words "0 0 12 29 feb ?".toList) ∧ (Fires A t ∧ now < t ∧ t.date.year ≤ 2100) ∧
      Schedule.parse now "0 0 12 29 feb ?" = .ok s := by
  let A : Field → Set Nat := fun
    | .second | .minute => {0}
    | .hour => {12}
    | .dayOfMonth => {29}
    | .month => {2}
    | f => Set.Icc f.low f.high
  let now : Instant := ⟨1714521600, 0, by decide, by decide, by decide⟩
  let t : Instant := ⟨1835438400, 0, by decide, by decide, by decide⟩
  have hx : Spelled A (words "0 0 12 29 feb ?".toList) := by
    refine ⟨['?'], rfl, .cons ?_ (.cons ?_ (.cons ?_ (.cons ?_ (.cons ?_ (.cons ?_ .nil)))))⟩
    · exact .item (.number (by decide) (by decide) (by decide))
    · exact .item (.number (by decide) (by decide) (by decide))
    · exact .item (.number (by decide) (by decide) (by decide))
    · exact .item (.number (by decide) (by decide) (by decide))
    · exact .item (.name rfl)
    · exact .item (.range (.any rfl))
  have ht : Fires A t := by
    refine ⟨rfl, ?_, ?_, ?_, ?_, ?_, ?_⟩
    · exact (by decide : t.secondOfDay % 60 = 0)
    · exact (by decide : t.secondOfDay / 60 % 60 = 0)
    · exact (by decide : t.secondOfDay / 3600 = 12)
    · exact (by decide : t.date.day = 29)
    · exact (by decide : t.date.month = 2)
    · exact (by decide : 1 ≤ weekday t.dayNumber + 1 ∧ weekday t.dayNumber + 1 ≤ 7)
  have hfires : Fires A t ∧ now < t ∧ t.date.year ≤ 2100 := ⟨ht, by decide, by decide⟩
  obtain ⟨s, hs⟩ := ((Spelled.fires_exactly hx).1 now (by decide)).1.2 ⟨t, hfires⟩
  exact ⟨A, now, t, s, hx, hfires, hs⟩

/-- A second before 1970 matches, and the search gives the first second of 1970. -/
theorem Spelled.misses_match_before_1970 : ∃ (A : Field → Set Nat) (s : Schedule)
    (start t u : Instant), Spelled A (words "* * * * * *".toList) ∧
      Schedule.parse default "* * * * * *" = .ok s ∧ (0 ≤ start.date.year ∧ Fires A t) ∧
      s.pattern.next? start = some u ∧ start < t ∧ t < u := by
  let A : Field → Set Nat := fun f => Set.Icc f.low f.high
  let start : Instant := ⟨-4, 0, by decide, by decide, by decide⟩
  let t : Instant := ⟨-3, 0, by decide, by decide, by decide⟩
  let later : Instant := ⟨1, 0, by decide, by decide, by decide⟩
  have hwords : words "* * * * * *".toList = List.replicate 6 ['*'] := by decide
  have hall : ∀ f : Field, FieldText f ['*'] (A f) := fun f => .item (.range .all)
  have hx : Spelled A (words "* * * * * *".toList) := by
    rw [hwords]
    exact ⟨['*'], rfl, .cons (hall _) (.cons (hall _) (.cons (hall _) (.cons (hall _)
      (.cons (hall _) (.cons (hall _) .nil)))))⟩
  have hfires : ∀ v ∈ [t, default, later], Fires A v := by
    simp only [List.forall_mem_cons, List.not_mem_nil, false_imp_iff, implies_true, and_true]
    refine ⟨?_, ?_, ?_⟩ <;>
      exact ⟨rfl, by decide, by decide, by decide, by decide, by decide, by decide⟩
  obtain ⟨p, ⟨hspells, hordered⟩, hok, -⟩ := @Spelled.parse_eq A _ default hx (by decide)
  refine ⟨A, ⟨_, p⟩, start, t, default, hx, hok ⟨later, hfires _ (by simp), by decide, by decide⟩,
    ⟨by decide, hfires _ (by simp)⟩, ?_, by decide, by decide⟩
  rw [hspells.next?_eq_some_iff hordered (Pattern.searchable_of_year (by decide))]
  refine ⟨⟨⟨hfires _ (by simp), by decide, by decide⟩, by decide⟩, ?_⟩
  rintro v ⟨⟨-, hyear, -⟩, -⟩
  have hday := (Date.year_le_iff v.dayNumber 1970).1 hyear
  simp only [Date.yearStart, Instant.dayNumber, secondsPerDay] at hday
  rw [Instant.le_iff, Instant.lt_iff]
  change ¬ (v.seconds < 0 ∨ v.seconds = 0 ∧ v.nanos < 0)
  omega

end Snapshots.Cron
