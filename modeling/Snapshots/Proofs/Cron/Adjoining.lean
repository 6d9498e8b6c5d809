import Snapshots.Proofs.Cron.Exact
import Snapshots.Proofs.Cron.Renumber

/-! # Words in which fields adjoin

The words of an expression are counted, but its fields are read from the joined text, where two of
them may stand in one word. An expression that is accepted has a field in each word exactly if no
word is broken.
-/

namespace Snapshots.Cron

open Text Time

namespace Weekday

theorem mem_intercalate_of_mem {mark c : Char} {piece : List Char} {pieces : List (List Char)}
    (h : piece ∈ pieces) (hc : c ∈ piece) : c ∈ [mark].intercalate pieces := by
  induction pieces with
  | nil => cases h
  | cons first pieces ih =>
    by_cases hne : pieces = []
    · rw [hne, List.mem_singleton] at h
      rwa [hne, List.intercalate_singleton, ← h]
    · rw [List.intercalate_cons_of_ne_nil hne, List.append_assoc]
      rcases List.mem_cons.1 h with rfl | h
      · exact List.mem_append_left _ hc
      · exact List.mem_append_right _ (List.mem_cons_of_mem _ (ih h))

theorem eq_or_mem_of_mem_intercalate {mark c : Char} {pieces : List (List Char)}
    (h : c ∈ [mark].intercalate pieces) : c = mark ∨ ∃ piece ∈ pieces, c ∈ piece := by
  rw [← joinWith_eq_intercalate] at h
  fun_induction joinWith mark pieces with
  | case1 => cases h
  | case2 piece => exact .inr ⟨piece, List.mem_cons_self, h⟩
  | case3 piece pieces hne ih =>
    rcases List.mem_append.1 h with h | h
    · exact .inr ⟨piece, List.mem_cons_self, h⟩
    · rcases List.mem_cons.1 h with rfl | h
      · exact .inl rfl
      · rcases ih h with rfl | ⟨piece', hmem, h⟩
        · exact .inl rfl
        · exact .inr ⟨piece', List.mem_cons_of_mem _ hmem, h⟩

theorem mem_renumberField {field out : List Char} (h : renumberField field = .ok out) :
    ∀ c ∈ out, c ∈ field ∨ isAtom c = true ∨ isConnector c = true := by
  rw [renumberField_eq_ok_iff] at h
  intro c hc
  split at h
  · exact .inl (h ▸ hc)
  · obtain ⟨pieces, hpieces, rfl⟩ := h
    rcases eq_or_mem_of_mem_intercalate hc with rfl | ⟨piece, hpiece, hc⟩
    · exact .inr (.inr (by decide))
    · obtain ⟨ps, hps, hpiece⟩ := List.mem_flatten.1 hpiece
      obtain ⟨item, hitem, hr⟩ := forall_mem_of_forall₂ hpieces ps hps
      cases hr with
      | letters =>
        rw [List.mem_singleton.1 hpiece] at hc
        have hmem : c ∈ [','].intercalate (field.splitOn ',') := mem_intercalate_of_mem hitem hc
        rw [List.intercalate_splitOn] at hmem
        exact .inl hmem
      | days =>
        obtain ⟨d, -, rfl⟩ := List.mem_map.1 hpiece
        have hdigit : c.isDigit = true :=
          Nat.isDigit_of_mem_toDigits (by decide) (by decide) hc
        exact .inr (.inl (by simp [isAtom, hdigit]))

end Weekday

theorem isBlank_of_isGap {c : Char} (h : isGap c = true) : isBlank c = true := by
  rcases isGap_iff.1 h with rfl | rfl | rfl | rfl <;> decide

theorem gapFree_of_mem_words {cs w : List Char} (hw : w ∈ words cs) : ∀ c ∈ w, isGap c = false := by
  intro c hc
  by_contra hgap
  have := isBlank_of_isGap (by simpa using hgap)
  rw [words_not_blank hw c hc] at this
  cases this

theorem gapFree_of_renumberField {cs : List Char} {dayOfWeek : List Char}
    (hne : words cs ≠ [])
    (h : Weekday.renumberField ((words cs).getLastD []) = .ok dayOfWeek) :
    ∀ t ∈ (words cs).dropLast ++ [dayOfWeek], ∀ c ∈ t, isGap c = false := by
  intro t ht c hc
  rcases List.mem_append.1 ht with ht | ht
  · exact gapFree_of_mem_words (List.dropLast_subset _ ht) c hc
  · rw [List.mem_singleton.1 ht] at hc
    rcases Weekday.mem_renumberField h c hc with hc | hc
    · have hlast : (words cs).getLastD [] ∈ words cs := by
        rw [List.getLastD_eq_getLast?, List.getLast?_eq_some_getLast hne]
        exact List.getLast_mem hne
      exact gapFree_of_mem_words hlast c hc
    · exact not_isGap hc

/-- An accepted expression has one field in each of its six words, and fires in all years, exactly
if no word is broken. -/
theorem Schedule.spelled_iff_unbroken {now : Instant} {x : String} {s : Schedule}
    (h : Schedule.parse now x = .ok s) : ∃ dayOfWeek,
      Weekday.renumberField ((words x.toList).getLastD []) = .ok dayOfWeek ∧
      ((∃ A, Spelled A (words x.toList) ∧ s.pattern.Spells A) ↔
        ∀ t ∈ (words x.toList).dropLast ++ [dayOfWeek], Unbroken t) := by
  obtain ⟨hlen, -, hpattern, -⟩ := Schedule.parse_eq_ok_iff.1 h
  obtain ⟨dayOfWeek, hword, hp⟩ := Schedule.patternOf_eq_ok_iff.1 hpattern
  have hne : words x.toList ≠ [] := by
    rintro hnil
    rw [hnil] at hlen
    cases hlen
  refine ⟨dayOfWeek, hword, ?_, ?_⟩
  · rintro ⟨A, ⟨dayOfWeek', hword', hfields⟩, -⟩ t ht
    obtain rfl : dayOfWeek = dayOfWeek' := Except.ok.inj (hword.symm.trans hword')
    exact ((Grammar.fields_written hfields).1 t ht).toUnbroken
  · intro hunbroken
    have hpieces : ∀ t ∈ (words x.toList).dropLast ++ [dayOfWeek], Piece t := fun t ht =>
      ⟨hunbroken t ht, gapFree_of_renumberField hne hword t ht⟩
    obtain ⟨hfields, hyears⟩ := Grammar.pattern?_unbroken hpieces (by simp [hlen]) hp
    refine ⟨fun f => {n | n ∈ s.pattern.column f}, ⟨dayOfWeek, hword, hfields⟩, ?_, ?_⟩
    · exact fun f _ n => Iff.rfl
    · intro n
      rw [hyears]
      exact Grammar.mem_allYears

theorem Schedule.spelled_iff_unbroken_range : ∃ (x : String) (s : Schedule) (A : Field → Set Nat),
    Schedule.parse default x = .ok s ∧ Spelled A (words x.toList) ∧ s.pattern.Spells A := by
  have hsome : (Schedule.parse default "0 */15 9-17 ? jan,mar 1-5").toOption.isSome = true := by
    decide +kernel
  cases hs : Schedule.parse default "0 */15 9-17 ? jan,mar 1-5" with
  | error e =>
    rw [hs] at hsome
    cases hsome
  | ok s =>
    obtain ⟨dayOfWeek, hword, hiff⟩ := Schedule.spelled_iff_unbroken hs
    have hlast : Weekday.renumberField
        ((words "0 */15 9-17 ? jan,mar 1-5".toList).getLastD []) = .ok "2,3,4,5,6".toList := by
      rfl
    obtain rfl : dayOfWeek = "2,3,4,5,6".toList := Except.ok.inj (hword.symm.trans hlast)
    obtain ⟨A, hA⟩ := hiff.2 (by decide +kernel)
    exact ⟨_, s, A, hs, hA⟩

/-- The first word holds two fields, and the last word stands for the years. -/
theorem Schedule.accepts_adjoining_fields : ∃ (x : String) (s : Schedule),
    Schedule.parse default x = .ok s ∧ ¬ ∃ A, Spelled A (words x.toList) := by
  have hsome : (Schedule.parse default "** 0 1 * * *").toOption.isSome = true := by decide +kernel
  cases hs : Schedule.parse default "** 0 1 * * *" with
  | error e =>
    rw [hs] at hsome
    cases hsome
  | ok s =>
    refine ⟨_, s, hs, ?_⟩
    rintro ⟨A, dayOfWeek, -, hfields⟩
    have hfirst : ['*', '*'] ∈ (words "** 0 1 * * *".toList).dropLast ++ [dayOfWeek] :=
      List.mem_append_left _ (by decide)
    have hbroken : ¬ Unbroken ['*', '*'] := by decide
    exact hbroken ((Grammar.fields_written hfields).1 _ hfirst).toUnbroken

end Snapshots.Cron
