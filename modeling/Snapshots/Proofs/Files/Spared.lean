import Snapshots.Proofs.Files.Tree

/-! # Files that are spared

A change of a tree spares the files at some places if it leaves them as they are and puts no others
there. Directories may be made, but not removed, so that paths lead where they led.
-/

namespace Snapshots.Files

/-- A change keeps the directories, and the files at some places. -/
structure Spares (P : Place → Prop) (fs fs' : Files) : Prop where
  home_eq : fs'.home = fs.home
  isDirectory : ∀ {q}, fs.isDirectory q = true → fs'.isDirectory q = true
  file_iff : ∀ {q c}, P q →
    (Files.entry? fs' q = some (.file c) ↔ Files.entry? fs q = some (.file c))

variable {P Q : Place → Prop} {fs fs' fs'' : Files} {p : Path} {here there : Place} {c : Content}

namespace Spares

theorem refl (fs : Files) : Spares P fs fs :=
  ⟨rfl, id, fun _ => Iff.rfl⟩

theorem trans (h : Spares P fs fs') (h' : Spares P fs' fs'') : Spares P fs fs'' :=
  ⟨h'.home_eq.trans h.home_eq, fun hq => h'.isDirectory (h.isDirectory hq),
    fun hq => (h'.file_iff hq).trans (h.file_iff hq)⟩

theorem mono (h : Spares P fs fs') (hPQ : ∀ {q}, Q q → P q) : Spares Q fs fs' :=
  ⟨h.home_eq, h.isDirectory, fun hq => h.file_iff (hPQ hq)⟩

theorem walk_eq_ok (h : Spares P fs fs') {names : List String}
    (hw : fs.walk here names = .ok there) : fs'.walk here names = .ok there := by
  induction names generalizing here with
  | nil => exact hw
  | cons name rest ih =>
    rw [walk_cons_eq_ok_iff] at hw ⊢
    rcases hw with ⟨hup, hw⟩ | ⟨hup, hlong, ⟨hd, hw⟩ | ⟨-, rfl, rfl⟩⟩
    · exact .inl ⟨hup, ih hw⟩
    · exact .inr ⟨hup, hlong, .inl ⟨h.isDirectory hd, ih hw⟩⟩
    · refine .inr ⟨hup, hlong, ?_⟩
      cases hd : fs'.isDirectory (here ++ [name]) with
      | true => exact .inl ⟨rfl, rfl⟩
      | false => exact .inr ⟨rfl, rfl, rfl⟩

theorem place_eq_ok (h : Spares P fs fs') (hp : fs.place p = .ok there) :
    fs'.place p = .ok there := by
  unfold place at hp ⊢
  split at hp
  · cases hp
  · rw [if_neg ‹_›, h.home_eq]
    exact h.walk_eq_ok hp

theorem read_iff (h : Spares P fs fs') (hp : fs.place p = .ok there) (hthere : P there) :
    fs'.read p = .ok c ↔ fs.read p = .ok c := by
  rw [read_eq_ok_iff, read_eq_ok_iff, hp, h.place_eq_ok hp]
  constructor
  · rintro ⟨q, hq, he, hd⟩
    cases hq
    exact ⟨there, rfl, (h.file_iff hthere).1 he, hd⟩
  · rintro ⟨q, hq, he, hd⟩
    cases hq
    exact ⟨there, rfl, (h.file_iff hthere).2 he, hd⟩

end Spares

/-! ### Changes of one file -/

/-- A change keeps the directories, and all that is not at the place of a path. -/
structure Touches (temporary : Path) (fs fs' : Files) : Prop extends SameDirectories fs fs' where
  entry_eq : ∀ {q}, fs.place temporary ≠ .ok q → Files.entry? fs' q = Files.entry? fs q

namespace Touches

variable {temporary : Path}

theorem refl (temporary : Path) (fs : Files) : Touches temporary fs fs :=
  ⟨⟨rfl, fun _ => rfl⟩, fun _ => rfl⟩

theorem trans (h : Touches temporary fs fs') (h' : Touches temporary fs' fs'') :
    Touches temporary fs fs'' where
  toSameDirectories := h.toSameDirectories.trans h'.toSameDirectories
  entry_eq hq := (h'.entry_eq fun hq' => hq (h.symm.place_eq_ok hq')).trans (h.entry_eq hq)

theorem of_write (h : fs.write p c = .ok fs') : Touches p fs fs' := by
  obtain ⟨there, hp, -, hdir, rfl⟩ := write_eq_ok_iff.1 h
  refine ⟨sameDirectories_set hdir c, fun {q} hq => ?_⟩
  rw [entry_set (ne_nil_of_not_isDirectory hdir), if_neg]
  rintro rfl
  exact hq hp

theorem of_remove (h : fs.remove p = .ok fs') : Touches p fs fs' := by
  obtain ⟨there, c, hp, he, rfl⟩ := remove_eq_ok_iff.1 h
  have hfile : fs.isDirectory there = false := by simp [Files.isDirectory, he]
  refine ⟨sameDirectories_erase hfile, fun {q} hq => ?_⟩
  rw [entry_erase (ne_nil_of_not_isDirectory hfile), if_neg]
  rintro rfl
  exact hq hp

end Touches

/-- A change spares all files but the one at a path. -/
def SparesBut (temporary : Path) (fs fs' : Files) : Prop :=
  Spares (fun q => fs'.place temporary ≠ .ok q) fs fs'

theorem Touches.sparesBut {temporary : Path} (h : Touches temporary fs fs') :
    SparesBut temporary fs fs' :=
  ⟨h.home_eq, fun hq => (h.isDirectory_eq _).trans hq, fun hq => by
    rw [h.entry_eq fun hq' => hq (h.place_eq_ok hq')]⟩

namespace SparesBut

variable {temporary : Path}

theorem refl (temporary : Path) (fs : Files) : SparesBut temporary fs fs :=
  Spares.refl fs

theorem trans (h : SparesBut temporary fs fs') (h' : SparesBut temporary fs' fs'') :
    SparesBut temporary fs fs'' :=
  (h.mono fun hq hq' => hq (h'.place_eq_ok hq')).trans h'

end SparesBut

theorem walk_concat {names : List String} {name : String}
    (h : fs.walk here (names ++ [name]) = .ok there) :
    ∃ d, fs.walk here names = .ok d ∧
      (name = ".." ∧ there = d.dropLast ∨ name ≠ ".." ∧ there = d ++ [name]) := by
  induction names generalizing here with
  | nil =>
    refine ⟨here, rfl, ?_⟩
    rcases walk_cons_eq_ok_iff.1 h with ⟨hup, hw⟩ | ⟨hup, -, ⟨-, hw⟩ | ⟨-, -, hw⟩⟩
    · cases hw
      exact .inl ⟨hup, rfl⟩
    · cases hw
      exact .inr ⟨hup, rfl⟩
    · exact .inr ⟨hup, hw.symm⟩
  | cons first names ih =>
    rcases walk_cons_eq_ok_iff.1 h with ⟨hup, hw⟩ | ⟨hup, hlong, ⟨hdir, hw⟩ | ⟨-, hrest, -⟩⟩
    · obtain ⟨d, hd, hthere⟩ := ih hw
      exact ⟨d, walk_cons_eq_ok_iff.2 (.inl ⟨hup, hd⟩), hthere⟩
    · obtain ⟨d, hd, hthere⟩ := ih hw
      exact ⟨d, walk_cons_eq_ok_iff.2 (.inr ⟨hup, hlong, .inl ⟨hdir, hd⟩⟩), hthere⟩
    · simp at hrest

end Snapshots.Files
