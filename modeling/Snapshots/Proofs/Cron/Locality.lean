import Mathlib.Data.List.DropRight
import Snapshots.Proofs.Cron.Spelling

/-! # Words of an expression

The rules of the grammar on a word without blanks. Whatever stands behind the word, they read the
same from it as from the word alone, unless the word stops at a comma, a hyphen or a slash or one of
these comes next.
-/

namespace Snapshots.Cron

open Text

def isConnector (c : Char) : Bool :=
  c = ',' || c = '-' || c = '/'

def isAtom (c : Char) : Bool :=
  c.isDigit || c.isAlpha || c = '*' || c = '?'

structure Whole (t : List Char) : Prop where
  gapFree : ∀ c ∈ t, isGap c = false
  last : ∀ c ∈ t.getLast?, isConnector c = false

/-- A text that goes on with none of the marks and without blanks with no letter and no digit. -/
structure Apart (marks r : List Char) : Prop where
  head : ∀ c ∈ r.head?, c.isDigit = false ∧ c.isAlpha = false
  next : ∀ c ∈ (r.dropWhile isGap).head?, c ∉ marks

/-- What is left of a text with something behind it, where some of the text is left. -/
def Follows (r left more : List Char) : Prop :=
  more = left ++ r ∨ left = [] ∧ more = r.dropWhile isGap

theorem rel_bind {α β γ δ : Type} {R : α → β → Prop} {S : γ → δ → Prop} {x : Option α}
    {y : Option β} {g : α → Option γ} {h : β → Option δ} (hr : Option.Rel R x y)
    (hg : ∀ a b, R a b → Option.Rel S (g a) (h b)) : Option.Rel S (x.bind g) (y.bind h) := by
  cases hr with
  | none => exact .none
  | some hab => exact hg _ _ hab

theorem Whole.suffix {t u : List Char} (h : Whole t) (hu : u <:+ t) : Whole u := by
  obtain ⟨v, rfl⟩ := hu
  refine ⟨fun c hc => h.gapFree c (List.mem_append_right v hc), fun c hc => h.last c ?_⟩
  rw [List.getLast?_append, Option.mem_def.1 hc]
  rfl

theorem dropWhile_gapFree {t : List Char} (h : ∀ c ∈ t, isGap c = false) :
    t.dropWhile isGap = t := by
  cases t with
  | nil => rfl
  | cons c t => rw [List.dropWhile_cons_of_neg (by simp [h c List.mem_cons_self])]

theorem dropWhile_append_of_gapFree {t r : List Char} (ht : t ≠ []) (h : ∀ c ∈ t, isGap c = false) :
    (t ++ r).dropWhile isGap = t ++ r := by
  cases t with
  | nil => contradiction
  | cons c t =>
    rw [List.cons_append, List.dropWhile_cons_of_neg (by simp [h c List.mem_cons_self])]

theorem Follows.length_le {r left more : List Char} (h : Follows r left more) :
    more.length ≤ left.length + r.length := by
  rcases h with rfl | ⟨-, rfl⟩
  · rw [List.length_append]
  · exact (List.dropWhile_sublist isGap).length_le.trans (Nat.le_add_left ..)

theorem isGap_iff {c : Char} : isGap c = true ↔ c = ' ' ∨ c = '\t' ∨ c = '\r' ∨ c = '\n' := by
  simp [isGap, or_assoc]

theorem not_isGap {c : Char} (h : isAtom c = true ∨ isConnector c = true) : isGap c = false := by
  by_contra hgap
  rw [Bool.not_eq_false, isGap_iff] at hgap
  rcases hgap with rfl | rfl | rfl | rfl <;> revert h <;> decide

namespace Grammar

variable {α β : Type} {marks : List Char}

/-- A rule that reads from a word what it reads from the word and something behind it. -/
def Local (marks : List Char) (rule : List Char → Option (α × List Char)) : Prop :=
  ∀ t r, t ≠ [] → Whole t → Apart marks r →
    Option.Rel (fun x y => x.1 = y.1 ∧ x.2 <:+ t ∧ Follows r x.2 y.2) (rule t) (rule (t ++ r))

theorem mark_follows {d : Char} {t r more : List Char} (hd : isConnector d = true)
    (hmem : d ∈ marks) (hw : Whole t) (hr : Apart marks r) (h : Follows r t more) :
    Option.Rel (fun x y => x ≠ [] ∧ x <:+ t ∧ y = x ++ r) (mark d t) (mark d more) := by
  cases t with
  | nil =>
    have hnone : ∀ cs : List Char, (∀ c ∈ cs.head?, d ≠ c) → mark d cs = none := by
      rintro (_ | ⟨c, cs⟩) hc
      · rfl
      · rw [mark, if_neg (hc c rfl)]
    have hmore : mark d more = none := by
      refine hnone more ?_
      rintro c hc rfl
      have hgap := not_isGap (.inr hd)
      refine hr.next d ?_ hmem
      rcases h with h | ⟨-, h⟩
      · rw [h, List.nil_append] at hc
        obtain ⟨r, rfl⟩ := List.head?_eq_some_iff.1 hc
        rw [List.dropWhile_cons_of_neg (by simp [hgap])]
        rfl
      · rwa [h] at hc
    rw [hmore]
    exact .none
  | cons c t =>
    rcases h with rfl | ⟨h, -⟩
    · simp only [List.cons_append, mark]
      split
      · rename_i he
        subst he
        refine .some ⟨?_, ⟨[d], rfl⟩, rfl⟩
        rintro rfl
        simpa [hd] using hw.last d rfl
      · exact .none
    · cases h

theorem local_none : Local marks fun _ => (none : Option (α × List Char)) :=
  fun _ _ _ _ _ => .none

theorem local_mark (d : Char) (a : α) : Local marks fun cs => (mark d cs).map (a, ·) := by
  rintro t r ht - -
  obtain ⟨c, t, rfl⟩ := List.exists_cons_of_ne_nil ht
  simp only [List.cons_append, mark]
  split
  · exact .some ⟨rfl, ⟨[c], rfl⟩, .inl rfl⟩
  · exact .none

theorem Local.orElse {rule rule' : List Char → Option (α × List Char)} (h : Local marks rule)
    (h' : Local marks rule') : Local marks fun cs => rule cs <|> rule' cs := by
  intro t r ht hw hr
  have hrel := h t r ht hw hr
  have hrel' := h' t r ht hw hr
  dsimp only
  generalize rule t = x, rule (t ++ r) = y at hrel
  cases hrel with
  | none => exact hrel'
  | some hxy => exact .some hxy

theorem Local.map {rule : List Char → Option (α × List Char)} (h : Local marks rule) (g : α → β) :
    Local marks fun cs => (rule cs).map fun x => (g x.1, x.2) := by
  intro t r ht hw hr
  have hrel := h t r ht hw hr
  dsimp only
  generalize rule t = x, rule (t ++ r) = y at hrel
  cases hrel with
  | none => exact .none
  | some hxy => exact .some ⟨congrArg g hxy.1, hxy.2⟩

theorem Local.bind {rule : List Char → Option (α × List Char)}
    {rule' : α → List Char → Option (β × List Char)} {d : Char} (h : Local marks rule)
    (hd : isConnector d = true) (hmem : d ∈ marks) (h' : ∀ a, Local marks (rule' a)) :
    Local marks fun cs => (rule cs).bind fun x => (mark d x.2).bind (rule' x.1) := by
  intro t r ht hw hr
  refine rel_bind (h t r ht hw hr) ?_
  rintro ⟨a, u⟩ ⟨_, more⟩ ⟨rfl, hu, hmore⟩
  refine rel_bind (mark_follows hd hmem (hw.suffix hu) hr hmore) ?_
  rintro v _ ⟨hv, hvu, rfl⟩
  have hrel := h' a v r hv (hw.suffix (hvu.trans hu)) hr
  generalize rule' a v = x, rule' a (v ++ r) = y at hrel
  cases hrel with
  | none => exact .none
  | some hxy => exact .some ⟨hxy.1, hxy.2.1.trans (hvu.trans hu), hxy.2.2⟩

theorem local_run {q : Char → Bool}
    (hstop : ∀ c, c.isDigit = false → c.isAlpha = false → q c = false) : Local marks (run q) := by
  intro t r ht hw hr
  have hrun : ∀ cs : List Char, cs.dropWhile isGap = cs → run q cs =
      if cs.takeWhile q = [] then none
      else some (cs.takeWhile q, (cs.dropWhile q).dropWhile isGap) := by
    intro cs hcs
    simp only [run, hcs]
  have hstopr : ∀ c ∈ r.head?, q c = false := fun c hc =>
    hstop c (hr.head c hc).1 (hr.head c hc).2
  have htaker : r.takeWhile q = [] := by
    cases r with
    | nil => rfl
    | cons c r => exact List.takeWhile_cons_of_neg (by simp [hstopr c rfl])
  have hdropr : r.dropWhile q = r := by
    cases r with
    | nil => rfl
    | cons c r => exact List.dropWhile_cons_of_neg (by simp [hstopr c rfl])
  have htake : (t ++ r).takeWhile q = t.takeWhile q := by
    rw [List.takeWhile_append, htaker, List.append_nil]
    split
    · exact ((List.takeWhile_prefix q).eq_of_length ‹_›).symm
    · rfl
  have hdrop : Whole (t.dropWhile q) := hw.suffix (List.dropWhile_suffix q)
  rw [hrun t (dropWhile_gapFree hw.gapFree), hrun _ (dropWhile_append_of_gapFree ht hw.gapFree),
    htake, dropWhile_gapFree hdrop.gapFree]
  split
  · exact .none
  · refine .some ⟨rfl, List.dropWhile_suffix q, ?_⟩
    rw [List.dropWhile_append, hdropr]
    split
    · exact .inr ⟨List.isEmpty_iff.1 ‹_›, rfl⟩
    · rename_i hne
      refine .inl (dropWhile_append_of_gapFree ?_ hdrop.gapFree)
      simpa using hne

theorem local_number (marks : List Char) : Local marks number := by
  have hrun : Local marks (run Char.isDigit) := local_run fun _ h _ => h
  intro t r ht hw hr
  refine rel_bind (hrun t r ht hw hr) ?_
  rintro ⟨ds, u⟩ ⟨_, more⟩ ⟨rfl, h⟩
  dsimp only
  split
  · exact .some ⟨rfl, h⟩
  · exact .none

theorem local_name (marks : List Char) : Local marks name :=
  local_run fun _ _ h => h

theorem pair_eq (rule : List Char → Option (α × List Char)) (make : α → α → β) (cs : List Char) :
    pair rule make cs = (rule cs).bind fun x =>
      (mark '-' x.2).bind fun rest => (rule rest).map fun y => (make x.1 y.1, y.2) := by
  simp only [pair, bind, Option.map_eq_bind, Function.comp_def]

theorem stepped_eq (anyMark : Bool) (cs : List Char) :
    stepped anyMark cs = (range anyMark cs).bind fun x =>
      (mark '/' x.2).bind fun rest => (number rest).map fun y => (.stepped x.1 y.1, y.2) := by
  simp only [stepped, bind, Option.map_eq_bind, Function.comp_def]

theorem Local.pair {rule : List Char → Option (α × List Char)} (h : Local marks rule)
    (hmem : '-' ∈ marks) (make : α → α → β) : Local marks (pair rule make) := by
  rw [funext (pair_eq rule make)]
  exact h.bind (by decide) hmem fun a => h.map (make a)

theorem local_range (anyMark : Bool) (hmem : '-' ∈ marks) : Local marks (range anyMark) := by
  have hany : Local marks fun cs =>
      if anyMark then (mark '?' cs).map (Range.all, ·) else none := by
    cases anyMark with
    | true => exact local_mark '?' Range.all
    | false => exact local_none
  have hnumber : Local marks number := local_number marks
  have hnames : Local marks (Grammar.pair name Range.names) := (local_name marks).pair hmem _
  exact hany.orElse ((local_mark '*' Range.all).orElse
    ((hnumber.pair hmem Range.numbers).orElse ((hnumber.map Range.point).orElse hnames)))

theorem local_item (anyMark : Bool) (hmem : '-' ∈ marks) (hmem' : '/' ∈ marks) :
    Local marks (item anyMark) := by
  have hstepped : Local marks (stepped anyMark) := by
    rw [funext (stepped_eq anyMark)]
    exact (local_range anyMark hmem).bind (by decide) hmem' fun r =>
      (local_number marks).map (Item.stepped r)
  exact hstepped.orElse (((local_range anyMark hmem).map Item.plain).orElse
    ((local_name marks).map Item.named))

theorem moreItems_of_none {anyMark : Bool} {cs : List Char} (fuel : Nat)
    (h : (mark ',' cs).bind (item anyMark) = none) : moreItems anyMark fuel cs = ([], cs) := by
  cases fuel with
  | zero => rfl
  | succ fuel => rw [moreItems, h]

theorem moreItems_of_some {anyMark : Bool} {cs rest : List Char} {i : Item} (fuel : Nat)
    (h : (mark ',' cs).bind (item anyMark) = some (i, rest)) :
    moreItems anyMark (fuel + 1) cs =
      (i :: (moreItems anyMark fuel rest).1, (moreItems anyMark fuel rest).2) := by
  rw [moreItems, h]

theorem length_of_mark {d : Char} {cs rest : List Char} (h : mark d cs = some rest) :
    cs.length = rest.length + 1 := by
  cases cs with
  | nil => cases h
  | cons c cs =>
    rw [mark] at h
    split at h <;> cases h
    rfl

theorem moreItems_follows (anyMark : Bool) (hmem : '-' ∈ marks) (hmem' : '/' ∈ marks)
    (hmem'' : ',' ∈ marks) {r : List Char} (hr : Apart marks r) {n : Nat} :
    ∀ {t more : List Char} (fuel fuel' : Nat), t.length = n → Whole t → Follows r t more →
      t.length ≤ fuel → more.length ≤ fuel' →
      (moreItems anyMark fuel t).1 = (moreItems anyMark fuel' more).1 ∧
      (moreItems anyMark fuel t).2 <:+ t ∧
      Follows r (moreItems anyMark fuel t).2 (moreItems anyMark fuel' more).2 := by
  induction n using Nat.strong_induction_on with
  | _ n ih =>
    rintro t more fuel fuel' rfl hw h hfuel hfuel'
    have hstop : (mark ',' t).bind (item anyMark) = none →
        (mark ',' more).bind (item anyMark) = none →
        (moreItems anyMark fuel t).1 = (moreItems anyMark fuel' more).1 ∧
        (moreItems anyMark fuel t).2 <:+ t ∧
        Follows r (moreItems anyMark fuel t).2 (moreItems anyMark fuel' more).2 := by
      intro hn hn'
      rw [moreItems_of_none fuel hn, moreItems_of_none fuel' hn']
      exact ⟨rfl, List.suffix_rfl, h⟩
    have hmark := mark_follows (d := ',') (by decide) hmem'' hw hr h
    generalize hx : mark ',' t = x, hy : mark ',' more = y at hmark
    cases hmark with
    | none => exact hstop (by rw [hx]; rfl) (by rw [hy]; rfl)
    | @some u _ hu =>
      obtain ⟨hne, hsuf, rfl⟩ := hu
      have hitem := local_item anyMark hmem hmem' u r hne (hw.suffix hsuf) hr
      generalize hi : item anyMark u = i, hj : item anyMark (u ++ r) = j at hitem
      cases hitem with
      | none => exact hstop (by rw [hx]; exact hi) (by rw [hy]; exact hj)
      | @some v w hvw =>
        obtain ⟨a, v⟩ := v
        obtain ⟨_, w⟩ := w
        obtain ⟨rfl, hvu, hfollows⟩ := hvw
        have htl := length_of_mark hx
        have hml := length_of_mark hy
        have hvl : v.length ≤ u.length := hvu.length_le
        have hwl : w.length ≤ v.length + r.length := hfollows.length_le
        rw [List.length_append] at hml
        obtain ⟨fuel, rfl⟩ : ∃ k, fuel = k + 1 := ⟨fuel - 1, by omega⟩
        obtain ⟨fuel', rfl⟩ : ∃ k, fuel' = k + 1 := ⟨fuel' - 1, by omega⟩
        rw [moreItems_of_some fuel (by rw [hx]; exact hi),
          moreItems_of_some fuel' (by rw [hy]; exact hj)]
        obtain ⟨hitems, hrest, hlast⟩ := ih v.length (by omega) fuel fuel' rfl
          (hw.suffix (hvu.trans hsuf)) hfollows (by omega) (by dsimp only; omega)
        exact ⟨by rw [hitems], hrest.trans (hvu.trans hsuf), hlast⟩

theorem field_eq (f : Field) (cs : List Char) : field f cs =
    (item f.hasAnyMark (cs.dropWhile isGap)).bind fun x =>
      (f.values? (x.1 :: (moreItems f.hasAnyMark x.2.length x.2).1)).map fun v =>
        (v, (moreItems f.hasAnyMark x.2.length x.2).2.dropWhile isGap) := by
  simp only [field, bind, Option.map_eq_bind, Function.comp_def]

/-- A word at the start of a text is read like the word alone. -/
theorem field_follows (f : Field) {t r : List Char} (ht : t ≠ []) (hw : Whole t)
    (hr : Apart [',', '-', '/'] r) :
    Option.Rel (fun x y => x.1 = y.1 ∧ x.2 <:+ t ∧
      y.2 = if x.2 = [] then r.dropWhile isGap else x.2 ++ r) (field f t) (field f (t ++ r)) := by
  rw [field_eq, field_eq, dropWhile_gapFree hw.gapFree, dropWhile_append_of_gapFree ht hw.gapFree]
  refine rel_bind (local_item _ (by decide) (by decide) t r ht hw hr) ?_
  rintro ⟨i, u⟩ ⟨_, more⟩ ⟨rfl, hu, hmore⟩
  obtain ⟨hitems, hsuf, hlast⟩ := moreItems_follows f.hasAnyMark (by decide) (by decide)
    (by decide) hr u.length more.length rfl (hw.suffix hu) hmore le_rfl le_rfl
  have hrest := hw.suffix (hsuf.trans hu)
  dsimp only at *
  rw [hitems]
  cases f.values? _ with
  | none => exact .none
  | some v =>
    refine .some ⟨rfl, ?_, ?_⟩
    · rw [dropWhile_gapFree hrest.gapFree]
      exact hsuf.trans hu
    · rw [dropWhile_gapFree hrest.gapFree]
      split
      · rename_i hnil
        rcases hlast with hlast | ⟨-, hlast⟩
        · rw [hlast, hnil, List.nil_append]
        · rw [hlast, List.dropWhile_idempotent]
      · rename_i hne
        rcases hlast with hlast | ⟨hnil, -⟩
        · rw [hlast, dropWhile_append_of_gapFree hne hrest.gapFree]
        · contradiction

end Grammar

end Snapshots.Cron
