import Snapshots.Files.Tree

/-! # Files in a tree

Where a path leads depends on the directories alone. A file that was written is read as it was
written, and a file that was moved is read at the place to which it was moved.
-/

namespace Snapshots.Files

variable {fs fs' : Files} {p source target : Path} {c : Content}

theorem walk_cons_eq_ok_iff {here there : Place} {name : String} {rest : List String} :
    fs.walk here (name :: rest) = .ok there ↔
      (name = ".." ∧ fs.walk here.dropLast rest = .ok there) ∨
      (name ≠ ".." ∧ ¬ maxNameSize < name.utf8ByteSize ∧
        ((fs.isDirectory (here ++ [name]) = true ∧ fs.walk (here ++ [name]) rest = .ok there) ∨
          (fs.isDirectory (here ++ [name]) = false ∧ rest = [] ∧ here ++ [name] = there))) := by
  rw [walk]
  by_cases hup : name = ".."
  · simp [hup]
  · by_cases hlong : maxNameSize < name.utf8ByteSize
    · simp [hup, hlong]
    · cases he : fs.entry? (here ++ [name]) with
      | none => by_cases hr : rest = [] <;> simp [hup, hlong, he, hr, isDirectory]
      | some e =>
        cases e with
        | directory => simp [hup, hlong, he, isDirectory]
        | file c => by_cases hr : rest = [] <;> simp [hup, hlong, he, hr, isDirectory]

theorem unlessRefused_eq_ok_iff {r : Except FileError Files} :
    fs.unlessRefused r = (fs', .ok ()) ↔ r = .ok fs' := by
  cases r <;> simp [unlessRefused]

/-- Two trees have the same directories. -/
structure SameDirectories (fs fs' : Files) : Prop where
  home_eq : fs'.home = fs.home
  isDirectory_eq : ∀ q, fs'.isDirectory q = fs.isDirectory q

theorem SameDirectories.trans {fs'' : Files} (h : SameDirectories fs fs')
    (h' : SameDirectories fs' fs'') : SameDirectories fs fs'' where
  home_eq := h'.home_eq.trans h.home_eq
  isDirectory_eq q := (h'.isDirectory_eq q).trans (h.isDirectory_eq q)

theorem SameDirectories.symm (h : SameDirectories fs fs') : SameDirectories fs' fs where
  home_eq := h.home_eq.symm
  isDirectory_eq q := (h.isDirectory_eq q).symm

theorem SameDirectories.walk_eq_ok (h : SameDirectories fs fs') {here there : Place}
    {names : List String} (hw : fs.walk here names = .ok there) :
    fs'.walk here names = .ok there := by
  induction names generalizing here with
  | nil => exact hw
  | cons name rest ih =>
    rw [walk_cons_eq_ok_iff] at hw ⊢
    rw [h.isDirectory_eq]
    rcases hw with ⟨hup, hw⟩ | ⟨hup, hlong, ⟨hd, hw⟩ | hlast⟩
    · exact .inl ⟨hup, ih hw⟩
    · exact .inr ⟨hup, hlong, .inl ⟨hd, ih hw⟩⟩
    · exact .inr ⟨hup, hlong, .inr hlast⟩

theorem SameDirectories.place_eq_ok (h : SameDirectories fs fs') {there : Place}
    (hp : fs.place p = .ok there) : fs'.place p = .ok there := by
  unfold place at hp ⊢
  split at hp
  · cases hp
  · rw [if_neg ‹_›, h.home_eq]
    exact h.walk_eq_ok hp

theorem ne_nil_of_not_isDirectory {q : Place} (h : fs.isDirectory q = false) : q ≠ [] := by
  rintro rfl
  simp [isDirectory, Files.entry?] at h

theorem entry_set {there : Place} (h : there ≠ []) (e : Entry) (q : Place) :
    Files.entry? (fs.set there e) q = if q = there then some e else fs.entry? q := by
  unfold Files.entry? set
  by_cases hq : q = []
  · subst hq
    simp [h.symm]
  · simp [hq, Table.get?_insert]

theorem sameDirectories_set {there : Place} (h : fs.isDirectory there = false) (c : Content) :
    SameDirectories fs (fs.set there (.file c)) where
  home_eq := rfl
  isDirectory_eq q := by
    rw [isDirectory, entry_set (ne_nil_of_not_isDirectory h)]
    split
    · rename_i hq
      rw [hq, h]
      rfl
    · rfl

theorem entry_erase {there : Place} (h : there ≠ []) (q : Place) :
    Files.entry? { fs with entries := fs.entries.erase there } q =
      if q = there then none else fs.entry? q := by
  unfold Files.entry?
  by_cases hq : q = []
  · subst hq
    simp [h.symm]
  · simp [hq, Table.get?_erase]

theorem sameDirectories_erase {there : Place} (h : fs.isDirectory there = false) :
    SameDirectories fs { fs with entries := fs.entries.erase there } where
  home_eq := rfl
  isDirectory_eq q := by
    rw [isDirectory, entry_erase (ne_nil_of_not_isDirectory h)]
    split
    · rename_i hq
      rw [hq, h]
      rfl
    · rfl

theorem read_eq_ok_iff :
    fs.read p = .ok c ↔
      ∃ there, fs.place p = .ok there ∧ fs.entry? there = some (.file c) ∧
        p.asDirectory = false := by
  unfold read
  cases hp : fs.place p with
  | error e => simp [bind, Except.bind]
  | ok there =>
    cases he : fs.entry? there with
    | none => simp [bind, Except.bind, he]
    | some e =>
      cases e with
      | directory => simp [bind, Except.bind, he]
      | file c' => cases hd : p.asDirectory <;> simp [bind, Except.bind, he]

theorem write_eq_ok_iff :
    fs.write p c = .ok fs' ↔
      ∃ there, fs.place p = .ok there ∧ p.asDirectory = false ∧ fs.isDirectory there = false ∧
        fs.set there (.file c) = fs' := by
  unfold write
  cases hp : fs.place p with
  | error e => simp [bind, Except.bind]
  | ok there =>
    cases hd : p.asDirectory <;> cases hq : fs.isDirectory there <;>
      simp [bind, Except.bind, hq]

theorem makeDirectory_eq_ok_iff :
    fs.makeDirectory p = .ok fs' ↔
      ∃ there, fs.place p = .ok there ∧ fs.entry? there = none ∧
        fs.set there .directory = fs' := by
  unfold makeDirectory
  cases hp : fs.place p with
  | error e => simp [bind, Except.bind]
  | ok there => cases he : fs.entry? there <;> simp [bind, Except.bind, he]

theorem remove_eq_ok_iff :
    fs.remove p = .ok fs' ↔
      ∃ there c, fs.place p = .ok there ∧ fs.entry? there = some (.file c) ∧
        { fs with entries := fs.entries.erase there } = fs' := by
  unfold remove
  cases hp : fs.place p with
  | error e => simp [bind, Except.bind]
  | ok there =>
    cases he : fs.entry? there with
    | none => simp [bind, Except.bind, he]
    | some e => cases e <;> simp [bind, Except.bind, he]

theorem read_of_write (h : fs.write p c = .ok fs') : fs'.read p = .ok c := by
  obtain ⟨there, hp, hd, hq, rfl⟩ := write_eq_ok_iff.1 h
  rw [read_eq_ok_iff]
  refine ⟨there, (sameDirectories_set hq c).place_eq_ok hp, ?_, hd⟩
  rw [entry_set (ne_nil_of_not_isDirectory hq), if_pos rfl]

theorem rename_eq_ok (h : fs.rename source target = .ok fs') :
    ∃ c here there, fs.read source = .ok c ∧ fs.place source = .ok here ∧
      fs.place target = .ok there ∧ target.asDirectory = false ∧ fs.isDirectory there = false ∧
      fs' = if here = there then fs
        else { fs with entries := fs.entries.erase here }.set there (.file c) := by
  unfold rename at h
  cases hr : fs.read source with
  | error e => simp [hr, bind, Except.bind] at h
  | ok c =>
    cases hs : fs.place source with
    | error e => simp [hr, hs, bind, Except.bind] at h
    | ok here =>
      cases ht : fs.place target with
      | error e => simp [hr, hs, ht, bind, Except.bind] at h
      | ok there =>
        cases hd : target.asDirectory with
        | true => simp [hr, hs, ht, hd, bind, Except.bind] at h
        | false =>
          cases hq : fs.isDirectory there with
          | true => simp [hr, hs, ht, hd, hq, bind, Except.bind] at h
          | false =>
            refine ⟨c, here, there, rfl, rfl, rfl, rfl, hq, ?_⟩
            simp only [hr, hs, ht, hd, hq, bind, Except.bind, Bool.false_eq_true, if_false] at h
            split at h
            · rw [if_pos ‹_›, Except.ok.inj h]
            · rw [if_neg ‹_›, Except.ok.inj h]

theorem read_of_rename (h : fs.rename source target = .ok fs') (hc : fs.read source = .ok c) :
    fs'.read target = .ok c := by
  obtain ⟨c', here, there, hr, hs, ht, hd, hq, rfl⟩ := rename_eq_ok h
  rw [hc] at hr
  cases hr
  obtain ⟨here', hs', he, -⟩ := read_eq_ok_iff.1 hc
  rw [hs] at hs'
  cases hs'
  rw [read_eq_ok_iff]
  split
  · rename_i hsame
    exact ⟨there, ht, hsame ▸ he, hd⟩
  · have hfile : fs.isDirectory here = false := by simp [isDirectory, he]
    have herase := sameDirectories_erase hfile
    have hq' := (herase.isDirectory_eq there).trans hq
    refine ⟨there, (herase.trans (sameDirectories_set hq' c)).place_eq_ok ht, ?_, hd⟩
    rw [entry_set (ne_nil_of_not_isDirectory hq), if_pos rfl]

end Snapshots.Files
