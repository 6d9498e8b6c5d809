import Mathlib.Data.List.Induction
import Snapshots.Proofs.Files.Spared

/-! # Trees that grow

In a closed tree every entry lies in a directory. To make directories puts some where nothing was,
and changes nothing else. Then a path leads to what it led to before, unless it goes up again from a
directory that was missing.
-/

namespace Snapshots.Files

variable {fs fs' fs'' : Files} {p : Path} {here there d : Place} {names rest : List String}
  {M : Place → Prop}

/-- What a path leads to. -/
def entryAt? (fs : Files) (p : Path) : Option Entry :=
  match fs.place p with
  | .ok there => fs.entry? there
  | .error _ => none

theorem entryAt?_of_place (h : fs.place p = .ok there) : fs.entryAt? p = fs.entry? there := by
  simp only [entryAt?, h]

theorem entryAt?_eq_some_iff {e : Entry} :
    fs.entryAt? p = some e ↔ ∃ there, fs.place p = .ok there ∧ fs.entry? there = some e := by
  unfold entryAt?
  cases fs.place p <;> simp

theorem Touches.entryAt?_eq {temporary : Path} (h : Touches temporary fs fs')
    (hp : ∀ {there}, fs.place p = .ok there → fs.place temporary ≠ .ok there) :
    fs'.entryAt? p = fs.entryAt? p := by
  ext e
  rw [entryAt?_eq_some_iff, entryAt?_eq_some_iff]
  constructor
  · rintro ⟨there, hthere, he⟩
    have hthere := h.symm.place_eq_ok hthere
    exact ⟨there, hthere, h.entry_eq (hp hthere) ▸ he⟩
  · rintro ⟨there, hthere, he⟩
    exact ⟨there, h.place_eq_ok hthere, (h.entry_eq (hp hthere)).trans he⟩

def base (fs : Files) (p : Path) : Place :=
  if p.absolute then [] else fs.home

theorem place_eq_ok_iff :
    fs.place p = .ok there ↔
      ¬ (p.parts = [] ∧ ¬ p.absolute) ∧ fs.walk (fs.base p) p.parts = .ok there := by
  unfold place base
  split
  · rename_i h
    exact ⟨nofun, fun h' => absurd h h'.1⟩
  · rename_i h
    exact ⟨fun hw => ⟨h, hw⟩, And.right⟩

theorem walk_eq_append (hup : ".." ∉ names) (hw : fs.walk here names = .ok there) :
    there = here ++ names := by
  induction names generalizing here with
  | nil =>
    cases hw
    rw [List.append_nil]
  | cons name rest ih =>
    rw [List.mem_cons, not_or] at hup
    rcases walk_cons_eq_ok_iff.1 hw with ⟨hname, -⟩ | ⟨-, -, ⟨-, hw⟩ | ⟨-, rfl, hthere⟩⟩
    · exact absurd hname.symm hup.1
    · rw [ih hup.2 hw, List.append_assoc, List.singleton_append]
    · exact hthere.symm

/-! ### Closed trees -/

/-- Every entry lies in a directory, and relative paths start from one. -/
structure Closed (fs : Files) : Prop where
  home : fs.isDirectory fs.home = true
  parent : ∀ {q name e}, fs.entry? (q ++ [name]) = some e → fs.isDirectory q = true

namespace Closed

theorem isDirectory_base (h : fs.Closed) (p : Path) : fs.isDirectory (fs.base p) = true := by
  unfold base
  split
  · simp [isDirectory, Files.entry?]
  · exact h.home

theorem isDirectory_dropLast (h : fs.Closed) (hd : fs.isDirectory d = true) :
    fs.isDirectory d.dropLast = true := by
  induction d using List.reverseRecOn with
  | nil => exact hd
  | append_singleton q name =>
    rw [List.dropLast_concat]
    exact h.parent (of_decide_eq_true hd)

theorem isDirectory_of_append (h : fs.Closed) {e : Entry} (he : fs.entry? (d ++ rest) = some e)
    (hrest : rest ≠ []) : fs.isDirectory d = true := by
  induction rest using List.reverseRecOn generalizing e with
  | nil => exact absurd rfl hrest
  | append_singleton rest name ih =>
    rw [← List.append_assoc] at he
    have hd := h.parent he
    by_cases hr : rest = []
    · rw [hr, List.append_nil] at hd
      exact hd
    · exact ih (of_decide_eq_true hd) hr

theorem walk_append (h : fs.Closed) (hhere : fs.isDirectory here = true) (hrest : rest ≠ [])
    (hw : fs.walk here (names ++ rest) = .ok there) :
    ∃ d, fs.walk here names = .ok d ∧ fs.isDirectory d = true := by
  induction names generalizing here with
  | nil => exact ⟨here, rfl, hhere⟩
  | cons name names ih =>
    rcases walk_cons_eq_ok_iff.1 hw with ⟨hup, hw⟩ | ⟨hup, hlong, ⟨hd, hw⟩ | ⟨-, hnil, -⟩⟩
    · obtain ⟨d, hd, hdir⟩ := ih (h.isDirectory_dropLast hhere) hw
      exact ⟨d, walk_cons_eq_ok_iff.2 (.inl ⟨hup, hd⟩), hdir⟩
    · obtain ⟨d, hd', hdir⟩ := ih hd hw
      exact ⟨d, walk_cons_eq_ok_iff.2 (.inr ⟨hup, hlong, .inl ⟨hd, hd'⟩⟩), hdir⟩
    · exact absurd (List.append_eq_nil_iff.1 hnil).2 hrest

theorem walk_of_entry (h : fs.Closed) {e : Entry} (hup : ".." ∉ names)
    (hw : fs'.walk here names = .ok there) (he : fs.entry? there = some e) :
    fs.walk here names = .ok there := by
  induction names generalizing here with
  | nil => exact hw
  | cons name rest ih =>
    have hthere := walk_eq_append hup hw
    rw [List.mem_cons, not_or] at hup
    rw [walk_cons_eq_ok_iff] at hw ⊢
    refine .inr ⟨fun hname => hup.1 hname.symm, ?_⟩
    rcases hw with ⟨hname, -⟩ | ⟨-, hlong, hw⟩
    · exact absurd hname.symm hup.1
    · refine ⟨hlong, ?_⟩
      by_cases hr : rest = []
      · subst hr
        have hthere : here ++ [name] = there := hthere.symm
        cases hd : fs.isDirectory (here ++ [name]) with
        | true => exact .inl ⟨rfl, congrArg _ hthere⟩
        | false => exact .inr ⟨rfl, rfl, hthere⟩
      · rcases hw with ⟨-, hw⟩ | ⟨-, hnil, -⟩
        · refine .inl ⟨h.isDirectory_of_append (e := e) ?_ hr, ih hup.2 hw⟩
          rw [List.append_assoc, List.singleton_append, ← hthere]
          exact he
        · exact absurd hnil hr

theorem isDirectory_parent (h : fs.Closed) (hp : fs.place p = .ok there) :
    fs.isDirectory there.dropLast = true := by
  obtain ⟨-, hw⟩ := place_eq_ok_iff.1 hp
  have hbase := h.isDirectory_base p
  generalize fs.base p = here at hw hbase
  generalize p.parts = names at hw
  induction names generalizing here with
  | nil =>
    cases hw
    exact h.isDirectory_dropLast hbase
  | cons name rest ih =>
    rcases walk_cons_eq_ok_iff.1 hw with ⟨-, hw⟩ | ⟨-, -, ⟨hd, hw⟩ | ⟨-, -, rfl⟩⟩
    · exact ih _ (h.isDirectory_dropLast hbase) hw
    · exact ih _ hd hw
    · rw [List.dropLast_concat]
      exact hbase

theorem set (h : fs.Closed) (e : Entry) (hthere : there ≠ [])
    (hparent : fs.isDirectory there.dropLast = true)
    (hfile : fs.isDirectory there = true → e = .directory) : (fs.set there e).Closed := by
  have hkeep : ∀ {q}, fs.isDirectory q = true → (fs.set there e).isDirectory q = true := by
    intro q hq
    rw [isDirectory, entry_set hthere]
    split
    · rename_i heq
      rw [hfile (heq ▸ hq), decide_eq_true_eq]
    · exact hq
  refine ⟨hkeep h.home, fun {q name e'} he => ?_⟩
  apply hkeep
  rw [entry_set hthere] at he
  split at he
  · rename_i heq
    rw [← heq, List.dropLast_concat] at hparent
    exact hparent
  · exact h.parent he

theorem erase (h : fs.Closed) (hfile : fs.isDirectory there = false) :
    Closed { fs with entries := fs.entries.erase there } := by
  have hsame := sameDirectories_erase hfile
  refine ⟨(hsame.isDirectory_eq _).trans h.home, fun {q name e} he => ?_⟩
  rw [hsame.isDirectory_eq]
  rw [entry_erase (ne_nil_of_not_isDirectory hfile)] at he
  split at he
  · cases he
  · exact h.parent he

theorem makeDirectory (h : fs.Closed) (hmade : fs.makeDirectory p = .ok fs') : fs'.Closed := by
  obtain ⟨there, hp, hfree, rfl⟩ := makeDirectory_eq_ok_iff.1 hmade
  refine h.set .directory ?_ (h.isDirectory_parent hp) fun _ => rfl
  rintro rfl
  cases hfree

theorem write (h : fs.Closed) {c : Content} (hw : fs.write p c = .ok fs') : fs'.Closed := by
  obtain ⟨there, hp, -, hdir, rfl⟩ := write_eq_ok_iff.1 hw
  exact h.set _ (ne_nil_of_not_isDirectory hdir) (h.isDirectory_parent hp)
    fun hdir' => absurd (hdir.symm.trans hdir') Bool.false_ne_true

theorem remove (h : fs.Closed) (hr : fs.remove p = .ok fs') : fs'.Closed := by
  obtain ⟨there, c, -, he, rfl⟩ := remove_eq_ok_iff.1 hr
  exact h.erase (by simp [isDirectory, he])

theorem rename (h : fs.Closed) {source : Path} (hr : fs.rename source p = .ok fs') :
    fs'.Closed := by
  obtain ⟨c, here, there, hread, hs, hp, -, hdir, rfl⟩ := rename_eq_ok hr
  split
  · exact h
  · obtain ⟨here', hs', he, -⟩ := read_eq_ok_iff.1 hread
    cases hs.symm.trans hs'
    have hfile : fs.isDirectory here = false := by simp [isDirectory, he]
    have hsame := sameDirectories_erase hfile
    refine (h.erase hfile).set _ (ne_nil_of_not_isDirectory hdir) ?_ fun hdir' => ?_
    · exact (hsame.isDirectory_eq _).trans (h.isDirectory_parent hp)
    · rw [hsame.isDirectory_eq, hdir] at hdir'
      cases hdir'

end Closed

/-! ### Directories that are made -/

/-- Directories are made, at some places where nothing was, and nothing else is changed. -/
structure Grows (M : Place → Prop) (fs fs' : Files) : Prop where
  home_eq : fs'.home = fs.home
  entry_eq : ∀ {q e}, fs.entry? q = some e → fs'.entry? q = some e
  made : ∀ {q}, fs.entry? q = none → fs'.entry? q = none ∨ M q ∧ fs'.entry? q = some .directory

namespace Grows

theorem refl (fs : Files) : Grows M fs fs :=
  ⟨rfl, id, .inl⟩

theorem trans (h : Grows M fs fs') (h' : Grows M fs' fs'') : Grows M fs fs'' where
  home_eq := h'.home_eq.trans h.home_eq
  entry_eq hq := h'.entry_eq (h.entry_eq hq)
  made hq := by
    rcases h.made hq with hq | ⟨hM, hq⟩
    · exact h'.made hq
    · exact .inr ⟨hM, h'.entry_eq hq⟩

theorem mono {M' : Place → Prop} (h : Grows M fs fs') (hM : ∀ {q}, M q → M' q) : Grows M' fs fs' :=
  ⟨h.home_eq, h.entry_eq, fun hq => (h.made hq).imp_right fun hq' => ⟨hM hq'.1, hq'.2⟩⟩

theorem of_makeDirectory (h : fs.makeDirectory p = .ok fs')
    (hM : ∀ {q}, fs.place p = .ok q → M q) : Grows M fs fs' := by
  obtain ⟨there, hp, hfree, rfl⟩ := makeDirectory_eq_ok_iff.1 h
  have hne : there ≠ [] := by
    rintro rfl
    cases hfree
  refine ⟨rfl, fun {q e} hq => ?_, fun {q} hq => ?_⟩
  · rw [entry_set hne, if_neg, hq]
    rintro rfl
    rw [hfree] at hq
    cases hq
  · rw [entry_set hne]
    split
    · rename_i heq
      exact .inr ⟨heq ▸ hM hp, rfl⟩
    · exact .inl hq

theorem isDirectory (h : Grows M fs fs') {q : Place} (hq : fs.isDirectory q = true) :
    fs'.isDirectory q = true := by
  have he := h.entry_eq (of_decide_eq_true hq)
  rw [Files.isDirectory, he, decide_eq_true_eq]

theorem spares (h : Grows M fs fs') {P : Place → Prop} : Spares P fs fs' := by
  refine ⟨h.home_eq, h.isDirectory, fun {q c} _ => ⟨fun hq => ?_, h.entry_eq⟩⟩
  cases he : fs.entry? q with
  | some e => rw [← h.entry_eq he, hq]
  | none =>
    rcases h.made he with hq' | ⟨-, hq'⟩
    · rw [hq'] at hq
      cases hq
    · rw [hq'] at hq
      cases hq

end Grows

/-- To make directories is to make one after the other, each at one of the names given or of those
above. -/
theorem makeDirectories_induction {P : Files → Prop} {absolute : Bool} (n : Nat)
    (names : List String)
    (hstep : ∀ {fs₁ fs₂ : Files} {names' : List String}, names' <+: names → P fs₁ →
      fs₁.makeDirectory ⟨absolute, names', false⟩ = .ok fs₂ → P fs₂)
    (h : P fs) : P (fs.makeDirectories absolute n names).1 := by
  induction n generalizing names with
  | zero => exact h
  | succ n ih =>
    have habove : P (fs.makeDirectories absolute n names.dropLast).1 :=
      ih _ fun hnames => hstep (hnames.trans (List.dropLast_prefix names))
    unfold makeDirectories
    split
    · exact h
    · simp only
      split
      · exact hstep (List.prefix_refl _) h ‹_›
      · split
        · rename_i heq
          rw [heq] at habove
          exact habove
        · rename_i heq
          rw [heq] at habove
          split
          · exact hstep (List.prefix_refl _) habove ‹_›
          · exact habove
      · exact h

theorem Closed.ensureDirectory (h : fs.Closed) (p : Path) : (fs.ensureDirectory p).1.Closed :=
  makeDirectories_induction _ _ (fun _ h => h.makeDirectory) h

/-- Where a directory above a path may be made, if those above it are made first. -/
def Above (fs : Files) (p : Path) (q : Place) : Prop :=
  ∃ fs₁ names, Grows (fun _ => True) fs fs₁ ∧ names <+: p.parts.dropLast ∧
    fs₁.place ⟨p.absolute, names, false⟩ = .ok q

theorem grows_ensureDirectory (fs : Files) (p : Path) (hnames : names <+: p.parts.dropLast) :
    Grows (fs.Above p) fs (fs.ensureDirectory ⟨p.absolute, names, false⟩).1 := by
  refine makeDirectories_induction _ _ (fun {fs₁ fs₂ names'} hnames' h hmade => ?_) (.refl fs)
  exact h.trans (.of_makeDirectory hmade fun hq =>
    ⟨fs₁, names', h.mono fun _ => trivial, hnames'.trans hnames, hq⟩)

theorem Closed.isDirectory_of_above (h : fs.Closed) (hp : fs.place p = .ok there) {q : Place}
    (hq : fs.Above p q) : fs.isDirectory q = true := by
  obtain ⟨fs₁, names, hgrows, ⟨rest, hrest⟩, hq⟩ := hq
  have hw := (place_eq_ok_iff.1 hp).2
  have hq := (place_eq_ok_iff.1 hq).2
  have hbase : fs₁.base ⟨p.absolute, names, false⟩ = fs.base p := by
    rw [base, base, hgrows.home_eq]
  rw [hbase] at hq
  by_cases hparts : p.parts = []
  · rw [hparts, List.dropLast_nil, List.append_eq_nil_iff] at hrest
    rw [hrest.1] at hq
    cases hq
    exact h.isDirectory_base p
  · rw [← List.dropLast_concat_getLast hparts, ← hrest, List.append_assoc] at hw
    obtain ⟨d, hd, hdir⟩ := h.walk_append (h.isDirectory_base p) (by simp) hw
    have hd := (hgrows.spares (P := fun _ => False)).walk_eq_ok hd
    cases hd.symm.trans hq
    exact hdir

/-- A path leads to what it led to before directories were made above it, unless it goes up and led
nowhere. -/
theorem Closed.entryAt?_of_grows (h : fs.Closed) (hgrows : Grows (fs.Above p) fs fs')
    (hp : (∃ there, fs.place p = .ok there) ∨ ".." ∉ p.parts) :
    fs'.entryAt? p = fs.entryAt? p := by
  cases hplace : fs.place p with
  | ok there =>
    rw [entryAt?_of_place hplace,
      entryAt?_of_place ((hgrows.spares (P := fun _ => False)).place_eq_ok hplace)]
    cases he : fs.entry? there with
    | some e => exact hgrows.entry_eq he
    | none =>
      rcases hgrows.made he with he' | ⟨habove, -⟩
      · exact he'
      · have hdir := h.isDirectory_of_above hplace habove
        rw [isDirectory, he] at hdir
        cases hdir
  | error e =>
    have hup : ".." ∉ p.parts := by
      apply hp.resolve_left
      rintro ⟨there, hthere⟩
      rw [hplace] at hthere
      cases hthere
    have hnone : fs.entryAt? p = none := by simp only [entryAt?, hplace]
    rw [hnone, Option.eq_none_iff_forall_ne_some]
    intro e' he'
    obtain ⟨there, hplace', he'⟩ := entryAt?_eq_some_iff.1 he'
    obtain ⟨hparts, hw⟩ := place_eq_ok_iff.1 hplace'
    have hbase : fs'.base p = fs.base p := by rw [base, base, hgrows.home_eq]
    rw [hbase] at hw
    cases he : fs.entry? there with
    | some e'' =>
      have hplace'' := place_eq_ok_iff.2 ⟨hparts, h.walk_of_entry hup hw he⟩
      rw [hplace] at hplace''
      cases hplace''
    | none =>
      rcases hgrows.made he with hthere | ⟨⟨fs₁, names, hgrows₁, hnames, hq⟩, -⟩
      · rw [hthere] at he'
        cases he'
      · -- a directory above lies at fewer names than the path
        have hq := (place_eq_ok_iff.1 hq).2
        have hnot : ".." ∉ names := fun hmem =>
          hup ((List.dropLast_sublist _).subset (hnames.subset hmem))
        have hbase₁ : fs₁.base ⟨p.absolute, names, false⟩ = fs.base p := by
          rw [base, base, hgrows₁.home_eq]
        have hlong := hnames.length_le
        rw [hbase₁] at hq
        obtain rfl : names = p.parts :=
          List.append_cancel_left ((walk_eq_append hnot hq).symm.trans (walk_eq_append hup hw))
        have hnil : p.parts = [] := by
          rw [List.length_dropLast] at hlong
          exact List.length_eq_zero_iff.1 (by omega)
        rw [hnil] at hw
        cases hw
        have hdir := h.isDirectory_base p
        rw [isDirectory, he] at hdir
        cases hdir

/-! ### The tree to start from -/

theorem get?_startingAt (home q : Place) (n : Nat) :
    ((List.range n).foldl (fun t k => t.insert (home.take (k + 1)) Entry.directory)
      (Table.empty : Table Place Entry)).get? q =
        if ∃ k < n, q = home.take (k + 1) then some .directory else none := by
  induction n with
  | zero => simp
  | succ n ih =>
    rw [List.range_succ, List.foldl_append, List.foldl_cons, List.foldl_nil, Table.get?_insert, ih]
    by_cases hq : q = home.take (n + 1)
    · rw [if_pos hq, if_pos ⟨n, Nat.lt_succ_self n, hq⟩]
    · rw [if_neg hq]
      congr 1
      rw [eq_iff_iff]
      constructor
      · rintro ⟨k, hk, hqk⟩
        exact ⟨k, Nat.lt_succ_of_lt hk, hqk⟩
      · rintro ⟨k, hk, hqk⟩
        refine ⟨k, Nat.lt_of_le_of_ne (Nat.le_of_lt_succ hk) ?_, hqk⟩
        rintro rfl
        exact hq hqk

theorem isDirectory_startingAt (home : Place) (n : Nat) :
    (startingAt home).isDirectory (home.take n) = true := by
  rw [isDirectory, decide_eq_true_eq, Files.entry?]
  split
  · rfl
  · rename_i hne
    obtain ⟨k, rfl⟩ : ∃ k, n = k + 1 := Nat.exists_eq_succ_of_ne_zero fun hn => hne (by simp [hn])
    rw [startingAt, get?_startingAt, if_pos]
    by_cases hk : k < home.length
    · exact ⟨k, hk, rfl⟩
    · have hlen : home.length ≤ k + 1 := by omega
      rw [List.take_of_length_le hlen] at hne ⊢
      have hpos := List.length_pos_iff.2 hne
      refine ⟨home.length - 1, by omega, ?_⟩
      rw [Nat.sub_add_cancel hpos, List.take_length]

theorem closed_startingAt (home : Place) : (startingAt home).Closed := by
  refine ⟨?_, fun {q name e} he => ?_⟩
  · have hhome := isDirectory_startingAt home home.length
    rw [List.take_length] at hhome
    exact hhome
  · rw [Files.entry?, if_neg (by simp), startingAt, get?_startingAt] at he
    split at he
    · rename_i hq
      obtain ⟨k, hk, hq⟩ := hq
      have hlength := congrArg List.length hq
      rw [List.length_append, List.length_take, List.length_singleton] at hlength
      have hstart : q <+: home.take k := by
        refine List.prefix_take_iff.2 ⟨?_, by omega⟩
        exact (hq ▸ List.prefix_append q [name]).trans (List.take_prefix _ _)
      rw [hstart.eq_of_length (by rw [List.length_take]; omega)]
      exact isDirectory_startingAt home k
    · cases he

end Snapshots.Files
