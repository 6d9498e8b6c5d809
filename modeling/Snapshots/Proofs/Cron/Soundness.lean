import Snapshots.Proofs.Cron.Reading

/-! # What was read is written

The values of a field come from a field that is written where the text starts. Of a word in which
no two fields adjoin, it is the whole word, unless the text is refused. Main statements:
`Grammar.fieldText_of_field` and `Grammar.field_unbroken`.
-/

namespace Snapshots.Cron

open Text

namespace Grammar

variable {α : Type}

/-- What was read ends with an atom that what is left does not go on with. -/
def Stops (u left : List Char) : Prop :=
  ∃ c ∈ u.getLast?, isAtom c = true ∧ ∀ d ∈ left.head?,
    ¬ (c.isDigit = true ∧ d.isDigit = true) ∧ ¬ (c.isAlpha = true ∧ d.isAlpha = true)

theorem Stops.append {v left : List Char} (h : Stops v left) (u : List Char) :
    Stops (u ++ v) left := by
  obtain ⟨c, hc, hstop⟩ := h
  refine ⟨c, ?_, hstop⟩
  rw [List.getLast?_append, Option.mem_def.1 hc]
  rfl

/-- A rule that reads from a text without blanks only what is written there. -/
def Sound (Writes : α → List Char → Prop) (rule : List Char → Option (α × List Char)) : Prop :=
  ∀ t a left, (∀ c ∈ t, isGap c = false) → rule t = some (a, left) →
    ∃ u, t = u ++ left ∧ Writes a u ∧ Stops u left

variable {β : Type} {Writes : α → List Char → Prop} {Writes' : β → List Char → Prop}

theorem Sound.orElse {rule rule' : List Char → Option (α × List Char)} (h : Sound Writes rule)
    (h' : Sound Writes rule') : Sound Writes fun cs => rule cs <|> rule' cs := by
  intro t a left ht hread
  dsimp only at hread
  cases hrule : rule t with
  | none =>
    rw [hrule] at hread
    exact h' t a left ht hread
  | some x =>
    rw [hrule] at hread
    exact h t a left ht (hrule.trans hread)

theorem Sound.map {rule : List Char → Option (α × List Char)} (h : Sound Writes rule) {g : α → β}
    (hg : ∀ a u, Writes a u → Writes' (g a) u) :
    Sound Writes' fun cs => (rule cs).map fun x => (g x.1, x.2) := by
  intro t b left ht hread
  obtain ⟨⟨a, more⟩, hrule, hread⟩ := Option.map_eq_some_iff.1 hread
  cases hread
  obtain ⟨u, hu, hw, hstop⟩ := h t a more ht hrule
  exact ⟨u, hu, hg a u hw, hstop⟩

theorem mark_eq_some_iff {d : Char} {t left : List Char} :
    mark d t = some left ↔ t = d :: left := by
  cases t with
  | nil => simp [mark]
  | cons c t =>
    rw [mark]
    split
    · rename_i h
      simp [h]
    · rename_i h
      simp [Ne.symm h]

theorem Sound.bind {γ : Type} {Writes'' : γ → List Char → Prop} {d : Char}
    {rule : List Char → Option (α × List Char)} {rule' : α → List Char → Option (γ × List Char)}
    (h : Sound Writes rule)
    (h' : ∀ a u, Writes a u → Sound (fun c v => Writes'' c (u ++ d :: v)) (rule' a)) :
    Sound Writes'' fun cs => (rule cs).bind fun x => (mark d x.2).bind (rule' x.1) := by
  intro t c left ht hread
  obtain ⟨⟨a, more⟩, hrule, hnext⟩ := Option.bind_eq_some_iff.1 hread
  obtain ⟨rest, hmark, hrule'⟩ := Option.bind_eq_some_iff.1 hnext
  obtain rfl := mark_eq_some_iff.1 hmark
  obtain ⟨u, rfl, hw, -⟩ := h t a (d :: rest) ht hrule
  obtain ⟨v, rfl, hw', hstop⟩ := h' a u hw rest c left
    (fun e he => ht e (List.mem_append_right u (List.mem_cons_of_mem d he))) hrule'
  refine ⟨u ++ d :: v, by simp, hw', ?_⟩
  rw [List.append_cons]
  exact hstop.append _

theorem sound_mark {d : Char} (a : α) (hd : isAtom d = true) (hdigit : d.isDigit = false)
    (halpha : d.isAlpha = false) (hw : Writes a [d]) :
    Sound Writes fun cs => (mark d cs).map (a, ·) := by
  intro t b left ht hread
  obtain ⟨rest, hmark, hread⟩ := Option.map_eq_some_iff.1 hread
  cases hread
  obtain rfl := mark_eq_some_iff.1 hmark
  exact ⟨[d], rfl, hw, d, rfl, hd, by simp [hdigit, halpha]⟩

theorem run_sound {q : Char → Bool} {t w left : List Char} (ht : ∀ c ∈ t, isGap c = false)
    (h : run q t = some (w, left)) :
    t = w ++ left ∧ (w ≠ [] ∧ ∀ c ∈ w, q c = true) ∧ ∀ d ∈ left.head?, q d = false := by
  have hsuffix : t.dropWhile q <:+ t := List.dropWhile_suffix q
  simp only [run, dropWhile_gapFree ht,
    dropWhile_gapFree fun c hc => ht c (hsuffix.subset hc)] at h
  split at h
  · cases h
  · cases h
    refine ⟨List.takeWhile_append_dropWhile.symm, ⟨‹_›, fun c hc => List.mem_takeWhile_imp hc⟩, ?_⟩
    intro d hd
    have := List.head?_dropWhile_not q t
    rw [Option.mem_def.1 hd] at this
    simpa using this

theorem stops_of_run {q : Char → Bool} {w left : List Char} (hne : w ≠ [])
    (hq : ∀ c ∈ w, q c = true) (hatom : ∀ c, q c = true → isAtom c = true)
    (hleft : ∀ c d, q c = true → d ∈ left.head? →
      ¬ (c.isDigit = true ∧ d.isDigit = true) ∧ ¬ (c.isAlpha = true ∧ d.isAlpha = true)) :
    Stops w left := by
  have hlast := hq _ (List.getLast_mem hne)
  exact ⟨w.getLast hne, List.getLast?_eq_some_getLast hne, hatom _ hlast, fun d => hleft _ d hlast⟩

theorem sound_number : Sound (fun n u => Numeral u n) number := by
  intro t n left ht h
  obtain ⟨⟨ds, more⟩, hrun, h⟩ := Option.bind_eq_some_iff.1 h
  dsimp only at h
  split at h
  · cases h
    obtain ⟨ht, ⟨hne, hdigits⟩, hleft⟩ := run_sound ht hrun
    have hatom : ∀ c : Char, c.isDigit = true → isAtom c = true := by
      simp +contextual [isAtom]
    refine ⟨ds, ht, ⟨hne, hdigits, rfl, ‹_›⟩, stops_of_run hne hdigits hatom ?_⟩
    intro c d hc hd
    have hnot : c.isAlpha = false := by
      by_contra halpha
      rw [not_isDigit_of_isAlpha (by simpa using halpha)] at hc
      cases hc
    simp [hleft d hd, hnot]
  · cases h

theorem sound_name : Sound (fun n u => n = u ∧ Letters u) name := by
  intro t n left ht h
  obtain ⟨ht, ⟨hne, hletters⟩, hleft⟩ := run_sound ht h
  have hatom : ∀ c : Char, c.isAlpha = true → isAtom c = true := by
    simp +contextual [isAtom]
  refine ⟨n, ht, ⟨rfl, hne, hletters⟩, stops_of_run hne hletters hatom ?_⟩
  intro c d hc hd
  simp [hleft d hd, not_isDigit_of_isAlpha hc]

theorem sound_pair {rule : List Char → Option (α × List Char)} (h : Sound Writes rule)
    {make : α → α → β}
    (hw : ∀ a b u v, Writes a u → Writes b v → Writes' (make a b) (u ++ '-' :: v)) :
    Sound Writes' (pair rule make) := by
  rw [funext (pair_eq rule make)]
  exact h.bind fun a u ha => h.map fun b v hb => hw a b u v ha hb

theorem sound_range (anyMark : Bool) :
    Sound (fun r u => Range.Written anyMark r u) (range anyMark) := by
  have hany : Sound (fun r u => Range.Written anyMark r u) fun cs =>
      if anyMark then (mark '?' cs).map (Range.all, ·) else none := by
    cases anyMark with
    | true => exact sound_mark Range.all (by decide) (by decide) (by decide) (.any rfl)
    | false =>
      intro t a left _ h
      cases h
  have hall : Sound (fun r u => Range.Written anyMark r u) fun cs =>
      (mark '*' cs).map (Range.all, ·) :=
    sound_mark Range.all (by decide) (by decide) (by decide) .all
  refine hany.orElse (hall.orElse (Sound.orElse ?_ (Sound.orElse ?_ ?_)))
  · exact sound_pair sound_number fun m n u v hm hn => .numbers hm hn
  · exact sound_number.map fun n u hn => .point hn
  · refine sound_pair sound_name ?_
    rintro a b u v ⟨rfl, ha⟩ ⟨rfl, hb⟩
    exact .names ha hb

theorem sound_item (anyMark : Bool) :
    Sound (fun i u => Item.Written anyMark i u) (item anyMark) := by
  have hstepped : Sound (fun i u => Item.Written anyMark i u) (stepped anyMark) := by
    rw [funext (stepped_eq anyMark)]
    exact (sound_range anyMark).bind fun r u hr => sound_number.map fun k v hk => .stepped hr hk
  refine hstepped.orElse (Sound.orElse ?_ ?_)
  · exact (sound_range anyMark).map fun r u hr => .plain hr
  · refine sound_name.map ?_
    rintro _ u ⟨rfl, hu⟩
    exact .named hu

theorem moreItems_sound {anyMark : Bool} (fuel : Nat) {t : List Char}
    (ht : ∀ c ∈ t, isGap c = false) : moreItems anyMark fuel t = ([], t) ∨
      ∃ u, t = ',' :: u ++ (moreItems anyMark fuel t).2 ∧
        ItemsWritten anyMark (moreItems anyMark fuel t).1 u ∧
        Stops u (moreItems anyMark fuel t).2 := by
  induction fuel generalizing t with
  | zero => exact .inl rfl
  | succ fuel ih =>
    cases hread : (mark ',' t).bind (item anyMark) with
    | none => exact .inl (moreItems_of_none _ hread)
    | some x =>
      obtain ⟨i, rest⟩ := x
      rw [moreItems_of_some fuel hread]
      obtain ⟨more, hmark, hitem⟩ := Option.bind_eq_some_iff.1 hread
      obtain rfl := mark_eq_some_iff.1 hmark
      obtain ⟨u, rfl, hi, hstop⟩ := sound_item anyMark more i rest
        (fun c hc => ht c (List.mem_cons_of_mem _ hc)) hitem
      have hrest : ∀ c ∈ rest, isGap c = false := fun c hc =>
        ht c (List.mem_cons_of_mem _ (List.mem_append_right u hc))
      refine .inr ?_
      rcases ih hrest with h | ⟨v, hv, his, hstop'⟩
      · rw [h]
        exact ⟨u, rfl, .one hi, hstop⟩
      · refine ⟨u ++ ',' :: v, ?_, .more hi his, ?_⟩
        · rw [List.cons_append, List.append_assoc, ← hv]
        · rw [List.append_cons]
          exact hstop'.append _

theorem field_sound {f : Field} {t left : List Char} {v : List Nat}
    (ht : ∀ c ∈ t, isGap c = false) (h : field f t = some (v, left)) : ∃ u items,
      t = u ++ left ∧ (ItemsWritten f.hasAnyMark items u ∧ f.values? items = some v) ∧
        Stops u left := by
  rw [field_eq, dropWhile_gapFree ht] at h
  obtain ⟨⟨i, rest⟩, hitem, h⟩ := Option.bind_eq_some_iff.1 h
  obtain ⟨_, hv, h⟩ := Option.map_eq_some_iff.1 h
  cases h
  obtain ⟨u, rfl, hi, hstop⟩ := sound_item _ t i rest ht hitem
  have hrest : ∀ c ∈ rest, isGap c = false := fun c hc => ht c (List.mem_append_right u hc)
  rcases @moreItems_sound f.hasAnyMark rest.length rest hrest with
    hmore | ⟨w, hw, his, hstop'⟩
  · rw [hmore] at hv ⊢
    rw [dropWhile_gapFree hrest]
    exact ⟨u, [i], rfl, ⟨.one hi, hv⟩, hstop⟩
  · have hleft : ∀ c ∈ (moreItems f.hasAnyMark rest.length rest).2, isGap c = false := by
      intro c hc
      refine hrest c ?_
      rw [hw]
      exact List.mem_append_right _ hc
    rw [dropWhile_gapFree hleft]
    refine ⟨u ++ ',' :: w, _, ?_, ⟨.more hi his, hv⟩, ?_⟩
    · rw [List.append_assoc, ← hw]
    · rw [List.append_cons]
      exact hstop'.append _

/-- A word that is read to its end is a field. -/
theorem fieldText_of_field {f : Field} {t : List Char} {v : List Nat}
    (ht : ∀ c ∈ t, isGap c = false) (h : field f t = some (v, [])) : FieldText f t {n | n ∈ v} := by
  obtain ⟨u, items, rfl, ⟨hitems, hv⟩, -⟩ := field_sound ht h
  obtain ⟨spans, hspans, hmem, -⟩ := Field.values?_spec hv
  have hset : {n | n ∈ v} = {n | ∃ s ∈ spans, n ∈ s.values} := Set.ext hmem
  rw [List.append_nil, hset]
  exact hitems.fieldText hspans

/-- A text at which no field starts. -/
def Stuck (t : List Char) : Prop :=
  ∃ c ∈ t.head?, isAtom c = false ∧ isGap c = false

theorem field_stuck (f : Field) {t : List Char} (h : Stuck t) : field f t = none := by
  obtain ⟨c, hc, hatom, hgap⟩ := h
  obtain ⟨t, rfl⟩ := List.head?_eq_some_iff.1 hc
  have hstar : c ≠ '*' := by
    rintro rfl
    cases hatom
  have hquestion : c ≠ '?' := by
    rintro rfl
    cases hatom
  simp only [isAtom, Bool.or_eq_false_iff] at hatom
  have hnumber : number (c :: t) = none := number_of_run_none (run_cons hatom.1.1.1 hgap t)
  have hname : name (c :: t) = none := run_cons hatom.1.1.2 hgap t
  have hrange : range f.hasAnyMark (c :: t) = none := by
    rw [range_of_head hstar hquestion, pair_eq, pair_eq, hnumber, hname]
    rfl
  rw [field_eq, List.dropWhile_cons_of_neg (by simp [hgap]), item, stepped_eq, hrange, hname]
  rfl

/-- An unbroken word is read to its end, or no field can follow. -/
theorem field_unbroken {f : Field} {t r more : List Char} {v : List Nat} (ht : Unbroken t)
    (hgap : ∀ c ∈ t, isGap c = false) (hr : Apart [',', '-', '/'] r)
    (h : field f (t ++ r) = some (v, more)) :
    (field f t = some (v, []) ∧ more = r.dropWhile isGap) ∨ Stuck more := by
  have hrel := field_follows f ht.ne_nil (ht.whole hgap) hr
  rw [h] at hrel
  generalize hx : field f t = x at hrel
  cases hrel with
  | @some x _ hxy =>
    obtain ⟨w, left⟩ := x
    obtain ⟨rfl, hsuf, hmore⟩ := hxy
    dsimp only at hmore
    cases left with
    | nil => exact .inl ⟨rfl, hmore⟩
    | cons d left =>
      obtain ⟨u, items, rfl, -, c, hc, hatom, hstop⟩ := field_sound hgap hx
      rw [if_neg (by simp)] at hmore
      refine .inr ⟨d, by rw [hmore]; rfl, ?_, hgap d (by simp)⟩
      by_contra hd
      have hadjoin : Adjoin c d := ⟨⟨hatom, by simpa using hd⟩, hstop d rfl⟩
      exact (List.isChain_append.1 ht.chain).2.2 c hc d rfl hadjoin

end Grammar

end Snapshots.Cron
