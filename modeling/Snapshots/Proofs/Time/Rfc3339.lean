import Snapshots.Proofs.Text.Decimal
import Snapshots.Proofs.Time.Calendar
import Snapshots.Time.Rfc3339

/-! # Instants read back

Every part of a written instant is read as what was written, and the parts make up the instant
again: leap seconds, fractions of any width and years of any number of digits included.
-/

namespace Snapshots.Text

theorem isBlank_of_isDigit {c : Char} (h : c.isDigit = true) : isBlank c = false := by
  have hc : 48 ≤ c.toNat ∧ c.toNat ≤ 57 := by simpa [Char.isDigit, UInt32.le_iff_toNat_le] using h
  simp only [isBlank, blankRanges, List.any_cons, List.any_nil, Bool.or_false, Bool.or_eq_false_iff,
    Bool.and_eq_false_iff, decide_eq_false_iff_not]
  omega

theorem dropBlanks_cons {c : Char} (h : isBlank c = false) (cs : List Char) :
    dropBlanks (c :: cs) = c :: cs := by
  simp [dropBlanks, h]

theorem dropBlanks_digits {ds : List Char} (hne : ds ≠ []) (hd : ∀ c ∈ ds, c.isDigit = true)
    (rest : List Char) : dropBlanks (ds ++ rest) = ds ++ rest := by
  obtain ⟨c, cs, rfl⟩ := List.exists_cons_of_ne_nil hne
  exact dropBlanks_cons (isBlank_of_isDigit (hd c (by simp))) _

end Snapshots.Text

namespace Snapshots.Time

open Text

namespace Rfc3339

theorem readNumber_digits {width : Nat} {ds rest : List Char} (hne : ds ≠ [])
    (hd : ∀ c ∈ ds, c.isDigit = true) (hl : ds.length ≤ width)
    (hstop : ds.length = width ∨ ∀ c ∈ rest.head?, c.isDigit = false) :
    readNumber width (ds ++ rest) = .ok (natOfDigits ds, rest) := by
  have htake : ((ds ++ rest).take width).takeWhile Char.isDigit = ds := by
    rw [List.take_append, List.take_of_length_le hl,
      List.takeWhile_append_of_pos hd]
    suffices h : (rest.take (width - ds.length)).takeWhile Char.isDigit = [] by
      rw [h, List.append_nil]
    rcases hstop with hw | hstop
    · simp [hw]
    · cases rest with
      | nil => simp
      | cons c cs =>
        cases width - ds.length with
        | zero => rfl
        | succ k => simp [hstop c (by simp)]
  obtain ⟨c, cs, rfl⟩ := List.exists_cons_of_ne_nil hne
  have hc : c.isDigit = true := hd c (by simp)
  rw [List.cons_append] at htake ⊢
  simp only [readNumber, hc, if_true, htake]
  simp

theorem readNumber_padded {width n : Nat} (hw : 0 < width) (hn : n < 10 ^ width)
    (rest : List Char) : readNumber width (padded width n ++ rest) = .ok (n, rest) := by
  have hl := length_padded hw hn
  rw [readNumber_digits (padded_ne_nil _ _) (fun _ => isDigit_of_mem_padded) hl.le (.inl hl),
    natOfDigits_padded]

theorem readField_padded {low high n : Nat} (h : low ≤ n ∧ n ≤ high) (hn : n < 100)
    (rest : List Char) : readField low high (padded 2 n ++ rest) = .ok (n, rest) := by
  rw [readField, dropBlanks_digits (padded_ne_nil _ _) fun _ => isDigit_of_mem_padded,
    readNumber_padded (by decide) hn]
  simp [bind, Except.bind, h]

theorem readMark_cons {mark : Char} (h : isBlank mark = false) (rest : List Char) :
    readMark mark (mark :: rest) = .ok rest := by
  rw [readMark, dropBlanks_cons h]
  simp

theorem readNumber_year {n : Nat} (rest : List Char) :
    readNumber (padded 4 n ++ '-' :: rest).length (padded 4 n ++ '-' :: rest) =
      .ok (n, '-' :: rest) := by
  rw [readNumber_digits (padded_ne_nil _ _) (fun _ => isDigit_of_mem_padded) (by simp)
    (.inr (by simp [Char.isDigit])), natOfDigits_padded]

theorem readYear_digits {c : Char} (hc : c.isDigit = true) (cs : List Char) :
    readYear (c :: cs) =
      ((readNumber 4 (c :: cs)).map fun (n, rest) => ((n : Int), rest)).bind fun (year, rest) =>
        if -2147483648 ≤ year ∧ year ≤ 2147483647 then .ok (year, rest)
        else .error .outOfRange := by
  have hminus : c ≠ '-' := by
    rintro rfl
    cases hc
  have hplus : c ≠ '+' := by
    rintro rfl
    cases hc
  rw [readYear, dropBlanks_cons (isBlank_of_isDigit hc)]
  split
  · rename_i heq
    exact absurd (List.cons.inj heq).1 hminus
  · rename_i heq
    exact absurd (List.cons.inj heq).1 hplus
  · rfl

theorem readYear_writeYear {year : Int} (h : -2147483648 ≤ year ∧ year ≤ 2147483647)
    (rest : List Char) : readYear (writeYear year ++ '-' :: rest) = .ok (year, '-' :: rest) := by
  unfold writeYear
  split
  · rename_i hy
    have hn : year.toNat < 10 ^ 4 := by omega
    have hread := readNumber_padded (by decide) hn ('-' :: rest)
    obtain ⟨c, cs, hcs⟩ := List.exists_cons_of_ne_nil (padded_ne_nil 4 year.toNat)
    have hmem : c ∈ padded 4 year.toNat := by simp [hcs]
    have hd : c.isDigit = true := isDigit_of_mem_padded hmem
    rw [hcs, List.cons_append] at hread ⊢
    rw [readYear_digits hd, hread]
    have hy' : (year.toNat : Int) = year := by omega
    simp [Except.map, Except.bind, hy', h]
  · split
    · have hy' : -(year.natAbs : Int) = year := by omega
      rw [List.cons_append, readYear, dropBlanks_cons (by decide)]
      simp only [readNumber_year, Except.map, bind, Except.bind, hy', h, and_self, if_true]
    · have hy' : (year.natAbs : Int) = year := by omega
      rw [List.cons_append, readYear, dropBlanks_cons (by decide)]
      simp only [readNumber_year, Except.map, bind, Except.bind, hy', h, and_self, if_true]

theorem readFraction_point {width n : Nat} (hw : 0 < width ∧ width ≤ 9) (hn : n < 10 ^ width)
    (rest : List Char) :
    readFraction ('.' :: (padded width n ++ 'Z' :: rest)) =
      .ok (n * 10 ^ (9 - width), 'Z' :: rest) := by
  have hl := length_padded hw.1 hn
  have hread : readNumber 9 (padded width n ++ 'Z' :: rest) = .ok (n, 'Z' :: rest) := by
    rw [readNumber_digits (padded_ne_nil _ _) (fun _ => isDigit_of_mem_padded) (by omega)
      (.inr (by simp [Char.isDigit])), natOfDigits_padded]
  simp [readFraction, hread, bind, Except.bind, hl, Char.isDigit]

theorem readFraction_writeFraction {nanos : Nat} (h : nanos < nanosPerSecond) (rest : List Char) :
    readFraction (writeFraction nanos ++ 'Z' :: rest) = .ok (nanos, 'Z' :: rest) := by
  have h : nanos < 1000000000 := h
  unfold writeFraction
  split
  · rename_i hz
    subst hz
    rfl
  · split
    · rw [List.cons_append, readFraction_point (by decide) (by omega)]
      congr 2
      omega
    · split
      · rw [List.cons_append, readFraction_point (by decide) (by omega)]
        congr 2
        omega
      · rw [List.cons_append, readFraction_point (by decide) (by omega)]
        congr 2
        omega

end Rfc3339

namespace Instant

theorem secondOfDay_lt (t : Instant) : t.secondOfDay < 86400 := by
  unfold secondOfDay secondsPerDay
  omega

theorem seconds_eq (t : Instant) : t.dayNumber * 86400 + t.secondOfDay = t.seconds := by
  unfold dayNumber secondOfDay secondsPerDay
  omega

/-- A clock shows a second 60 in leap seconds only, and these follow a second 59. -/
theorem clockSecond_spec (t : Instant) :
    t.clockSecond ≤ 60 ∧ t.clockSecond / 60 = t.nanos / nanosPerSecond ∧
      t.clockSecond - t.clockSecond / 60 = t.secondOfDay % 60 := by
  have hlt : t.nanos < 2000000000 := t.nanos_lt
  have hleap : 1000000000 ≤ t.nanos → t.secondOfDay % 60 = 59 := by
    intro h
    have := t.leap_at_59 h
    unfold secondOfDay secondsPerDay
    omega
  simp only [clockSecond, nanosPerSecond]
  omega

theorem clockNanos_lt (t : Instant) : t.clockNanos < nanosPerSecond :=
  Nat.mod_lt _ (by decide)

theorem year_range (t : Instant) :
    -2147483648 ≤ t.date.year ∧ t.date.year ≤ 2147483647 := by
  have hr := t.inRange
  have hy := Date.year_ofDayNumber t.dayNumber
  rw [← date] at hy
  simp only [firstSecond, lastSecond, dayNumber, secondsPerDay] at hr hy
  omega

end Instant

namespace Rfc3339

theorem combine_parts (t : Instant) :
    combine t.date (t.secondOfDay / 3600) (t.secondOfDay / 60 % 60) t.clockSecond t.clockNanos 0 =
      .ok t := by
  obtain ⟨-, hleap, hsecond⟩ := t.clockSecond_spec
  have hvalid : t.date.Valid := Date.valid_ofDayNumber _
  have hsum : t.secondOfDay / 3600 * 3600 + t.secondOfDay / 60 % 60 * 60 + t.clockSecond -
      t.clockSecond / 60 = t.secondOfDay := by omega
  have hseconds : t.date.dayNumber * (secondsPerDay : Int) +
      (t.secondOfDay / 3600 * 3600 + t.secondOfDay / 60 % 60 * 60 + t.clockSecond -
        t.clockSecond / 60 : Nat) = t.seconds := by
    rw [hsum, Instant.date, Date.dayNumber_ofDayNumber]
    exact t.seconds_eq
  have hnanos : t.clockNanos + t.clockSecond / 60 * nanosPerSecond = t.nanos := by
    rw [hleap]
    exact Nat.mod_add_div' _ _
  have hrange : ¬ (t.seconds < firstSecond ∨ lastSecond < t.seconds) := by
    have := t.inRange
    omega
  have hparts : Instant.ofParts? (t.seconds - 0) t.nanos = some t :=
    Instant.ofParts?_eq_some_iff.2 ⟨by omega, rfl⟩
  simp only [combine, hvalid, hseconds, hnanos, hrange, hparts, bind, Except.bind]
  rfl

theorem read_writeWith (t : Instant) : read (writeWith ['Z'] t) = .ok t := by
  obtain ⟨hmonth, hday⟩ := (Date.valid_ofDayNumber t.dayNumber).range
  rw [← Instant.date] at hmonth hday
  have hsod := t.secondOfDay_lt
  have hhour : t.secondOfDay / 3600 ≤ 23 := by omega
  have hminute : t.secondOfDay / 60 % 60 ≤ 59 := by omega
  obtain ⟨hsecond, -, -⟩ := t.clockSecond_spec
  simp only [writeWith, writeDate, writeClock, List.append_assoc, List.cons_append]
  rw [read, readYear_writeYear t.year_range]
  simp only [bind, Except.bind]
  rw [readMark_cons (by decide)]
  simp only
  rw [readField_padded hmonth (by omega)]
  simp only
  rw [readMark_cons (by decide)]
  simp only
  rw [readField_padded hday (by omega)]
  simp only [readSeparator, true_or, if_true]
  rw [readField_padded ⟨Nat.zero_le _, hhour⟩ (by omega)]
  simp only
  rw [readMark_cons (by decide)]
  simp only
  rw [readField_padded ⟨Nat.zero_le _, hminute⟩ (by omega)]
  simp only
  rw [readMark_cons (by decide)]
  simp only
  rw [readField_padded ⟨Nat.zero_le _, hsecond⟩ (by omega)]
  simp only
  rw [readFraction_writeFraction t.clockNanos_lt]
  exact combine_parts t

end Rfc3339

namespace Instant

theorem ofText_toText (t : Instant) : ofText t.toText = .ok t := by
  rw [ofText, toText, String.toList_ofList, Rfc3339.read_writeWith]

end Instant

end Snapshots.Time
