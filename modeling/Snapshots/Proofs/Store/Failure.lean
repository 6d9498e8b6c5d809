import Snapshots.Proofs.Store.Attempt

/-! # Saves that fail

Whatever fails in a save and wherever it is cut off, what was at the path is there or the new
document is. One that answers leaves no sibling, unless that cannot be removed.
-/

namespace Snapshots.Store

open Files

variable {fails : Step → Bool} {process : Nat} {fs fs' fs₀ fs₁ : Files} {p : Path} {c : Content}
  {there : Place} {ts : List Task} {taken : Bool} {o : Outcome}

/-! ### The stages of a save -/

theorem Performs.grows (h : Performs fs (directorySteps p) fs' taken) :
    Grows (fs.Above p) fs fs' := by
  unfold directorySteps at h
  split at h
  · cases h
    exact .refl fs
  · cases h with
    | stopped hs =>
      cases hs with
      | nothing => exact .refl fs
      | directories n => exact fs.grows_ensureDirectory p (List.take_prefix n _)
    | next hs h =>
      cases h
      have hgrows := fs.grows_ensureDirectory p (List.prefix_refl _)
      change fs.ensureDirectory p.parent = _ at hs
      rw [show (⟨p.absolute, p.parts.dropLast, false⟩ : Path) = p.parent from rfl, hs] at hgrows
      exact hgrows

theorem Performs.replaced (h : Performs fs (replaceSteps process p c) fs' taken) :
    taken = false ∧ Touches (sibling process p) fs fs' ∨
      taken = true ∧ ∃ fs₁, Touches (sibling process p) fs fs₁ ∧
        fs₁.read (sibling process p) = .ok c ∧ fs₁.rename (sibling process p) p = .ok fs' := by
  cases h with
  | stopped hs =>
    refine .inl ⟨rfl, ?_⟩
    cases hs with
    | nothing => exact .refl ..
    | created hw => exact .of_write hw
  | next hcreate h =>
    have hcreated := Touches.of_write (unlessRefused_eq_ok_iff.1 hcreate)
    cases h with
    | stopped hs =>
      refine .inl ⟨rfl, ?_⟩
      cases hs with
      | nothing => exact hcreated
      | written hw => exact hcreated.trans (.of_write hw)
    | next hwrite h =>
      have hwrite := unlessRefused_eq_ok_iff.1 hwrite
      have hwritten := hcreated.trans (.of_write hwrite)
      cases h with
      | stopped hs =>
        cases hs
        exact .inl ⟨rfl, hwritten⟩
      | next hsync h =>
        cases hsync
        cases h with
        | stopped hs =>
          cases hs
          exact .inl ⟨rfl, hwritten⟩
        | next hrename h =>
          cases h
          exact .inr ⟨rfl, _, hwritten, read_of_write hwrite, unlessRefused_eq_ok_iff.1 hrename⟩

theorem touches_remove (fs : Files) (p : Path) :
    Touches p fs ((Step.remove p).perform fs).1 := by
  change Touches p fs (fs.unlessRefused (fs.remove p)).1
  cases h : fs.remove p with
  | error => exact .refl ..
  | ok => exact .of_remove h

theorem not_file_of_remove (fs : Files) (p : Path) (c : Content) :
    ((Step.remove p).perform fs).1.entryAt? p ≠ some (.file c) := by
  intro h
  have hplace := (touches_remove fs p).symm
  obtain ⟨there, hthere, he⟩ := entryAt?_eq_some_iff.1 h
  have hthere := hplace.place_eq_ok hthere
  change Files.entry? (fs.unlessRefused (fs.remove p)).1 there = _ at he
  cases hremove : fs.remove p with
  | error e =>
    rw [hremove] at he
    rw [remove_eq_ok_iff.2 ⟨there, c, hthere, he, rfl⟩] at hremove
    cases hremove
  | ok fs' =>
    rw [hremove] at he
    obtain ⟨there', c', hthere', he', rfl⟩ := remove_eq_ok_iff.1 hremove
    cases hthere.symm.trans hthere'
    have hfile : fs.isDirectory there = false := by simp [isDirectory, he']
    change Files.entry? { fs with entries := fs.entries.erase there } there = _ at he
    rw [entry_erase (ne_nil_of_not_isDirectory hfile), if_pos rfl] at he
    cases he

theorem entryAt?_of_moved (hread : fs.read (sibling process p) = .ok c)
    (hrename : fs.rename (sibling process p) p = .ok fs') :
    fs'.entryAt? p = some (.file c) ∧ fs'.entryAt? (sibling process p) = none := by
  have hpath := read_of_rename hrename hread
  obtain ⟨there, hthere, he, -⟩ := read_eq_ok_iff.1 hpath
  refine ⟨entryAt?_eq_some_iff.2 ⟨there, hthere, he⟩, ?_⟩
  obtain ⟨c', temp, there', hread', htemp, hthere', -, hdir, rfl⟩ := rename_eq_ok hrename
  have hne := sibling_place_ne hthere' htemp
  obtain ⟨temp', htemp', hfile, -⟩ := read_eq_ok_iff.1 hread
  cases htemp.symm.trans htemp'
  have htempfile : fs.isDirectory temp = false := by simp [isDirectory, hfile]
  have herase := sameDirectories_erase htempfile
  have hset := sameDirectories_set ((herase.isDirectory_eq there').trans hdir) c'
  rw [if_neg hne, entryAt?_of_place ((herase.trans hset).place_eq_ok htemp),
    entry_set (ne_nil_of_not_isDirectory hdir), if_neg hne,
    entry_erase (ne_nil_of_not_isDirectory htempfile), if_pos rfl]

theorem entryAt?_of_touches (h : Touches (sibling process p) fs fs') :
    fs'.entryAt? p = fs.entryAt? p :=
  h.entryAt?_eq fun hthere htemp => sibling_place_ne hthere htemp rfl

/-! ### What becomes of the files -/

/-- A save leaves all files as they were but the sibling of its own, or the new document is in
place. -/
theorem Attempted.sparesBut_or_read (h : Attempted process p ts fs fs' o) :
    SparesBut (sibling process p) fs fs' ∨
      (o = .saved ∨ o = .cut) ∧ fs'.read p = .ok (.text (render ts)) := by
  cases h with
  | saved h₀ h =>
    rcases h.replaced with ⟨htaken, -⟩ | ⟨-, fs₁, -, hread, hrename⟩
    · cases htaken
    · exact .inr ⟨.inl rfl, read_of_rename hrename hread⟩
  | unready h => exact .inl h.grows.spares
  | failed h₀ h =>
    rcases h.replaced with ⟨-, h⟩ | ⟨htaken, -⟩
    · exact .inl (SparesBut.trans h₀.grows.spares (h.trans (touches_remove ..)).sparesBut)
    · cases htaken
  | leftover h₀ h =>
    rcases h.replaced with ⟨-, h⟩ | ⟨htaken, -⟩
    · exact .inl (SparesBut.trans h₀.grows.spares h.sparesBut)
    · cases htaken
  | cutMaking h => exact .inl h.grows.spares
  | cutReplacing h₀ h =>
    rcases h.replaced with ⟨-, h⟩ | ⟨-, fs₁, -, hread, hrename⟩
    · exact .inl (SparesBut.trans h₀.grows.spares h.sparesBut)
    · exact .inr ⟨.inr rfl, read_of_rename hrename hread⟩
  | cutCleaning h₀ h =>
    rcases h.replaced with ⟨-, h⟩ | ⟨htaken, -⟩
    · exact .inl (SparesBut.trans h₀.grows.spares (h.trans (touches_remove ..)).sparesBut)
    · cases htaken

theorem sparesBut_of_saveWith {e : SaveError}
    (h : saveWith fails process fs p ts = (fs', .error e)) :
    SparesBut (sibling process p) fs fs' := by
  obtain ⟨o, hattempted, ho, -⟩ := attempted_saveWith fails process fs p ts
  rw [h] at hattempted ho
  rcases hattempted.sparesBut_or_read with hspares | ⟨rfl | rfl, -⟩
  · exact hspares
  · cases ho
  · cases ho

theorem read_iff_of_saveWith {e : SaveError}
    (h : saveWith fails process fs p ts = (fs', .error e)) (hp : fs.place p = .ok there) :
    fs'.read p = .ok c ↔ fs.read p = .ok c := by
  have hspares := sparesBut_of_saveWith h
  refine Spares.read_iff hspares hp fun hs => ?_
  exact sibling_place_ne (hspares.place_eq_ok hp) hs rfl

/-! ### The old document or the new -/

/-- What an attempt may come to from the tree in which its directories are there, as it ends. -/
def Outcome.Allows (process : Nat) (p : Path) (ts : List Task) (ready after : Files) :
    Outcome → Prop
  | saved => after.entryAt? p = some (.file (.text (render ts))) ∧
      after.entryAt? (sibling process p) = none
  | unready => after = ready
  | failed => after.entryAt? p = ready.entryAt? p ∧
      ∀ c, after.entryAt? (sibling process p) ≠ some (.file c)
  | leftover => after.entryAt? p = ready.entryAt? p
  | cut => after.entryAt? p = ready.entryAt? p ∨
      after.entryAt? p = some (.file (.text (render ts)))

theorem Attempted.closed (h : Attempted process p ts fs fs' o) (hfs : fs.Closed) : fs'.Closed := by
  have hremove : ∀ {fs₁ : Files}, fs₁.Closed →
      ((Step.remove (sibling process p)).perform fs₁).1.Closed := by
    intro fs₁ hfs₁
    change (fs₁.unlessRefused (fs₁.remove _)).1.Closed
    cases hr : fs₁.remove (sibling process p) with
    | error => exact hfs₁
    | ok => exact hfs₁.remove hr
  cases h with
  | saved h₀ h => exact h.closed (h₀.closed hfs)
  | unready h => exact h.closed hfs
  | failed h₀ h => exact hremove (h.closed (h₀.closed hfs))
  | leftover h₀ h => exact h.closed (h₀.closed hfs)
  | cutMaking h => exact h.closed hfs
  | cutReplacing h₀ h => exact h.closed (h₀.closed hfs)
  | cutCleaning h₀ h => exact hremove (h.closed (h₀.closed hfs))

theorem Attempted.allows (h : Attempted process p ts fs fs' o) :
    ∃ ready, Grows (fs.Above p) fs ready ∧ o.Allows process p ts ready fs' := by
  cases h with
  | @saved ready _ h₀ h =>
    rcases h.replaced with ⟨htaken, -⟩ | ⟨-, fs₁, -, hread, hrename⟩
    · cases htaken
    · exact ⟨ready, h₀.grows, entryAt?_of_moved hread hrename⟩
  | unready h => exact ⟨fs', h.grows, rfl⟩
  | @failed ready stopped h₀ h =>
    rcases h.replaced with ⟨-, h⟩ | ⟨htaken, -⟩
    · exact ⟨ready, h₀.grows, entryAt?_of_touches (h.trans (touches_remove ..)),
        not_file_of_remove stopped _⟩
    · cases htaken
  | @leftover ready _ h₀ h =>
    rcases h.replaced with ⟨-, h⟩ | ⟨htaken, -⟩
    · exact ⟨ready, h₀.grows, entryAt?_of_touches h⟩
    · cases htaken
  | cutMaking h => exact ⟨fs', h.grows, .inl rfl⟩
  | @cutReplacing ready _ _ h₀ h =>
    rcases h.replaced with ⟨-, h⟩ | ⟨-, fs₁, -, hread, hrename⟩
    · exact ⟨ready, h₀.grows, .inl (entryAt?_of_touches h)⟩
    · exact ⟨ready, h₀.grows, .inr (entryAt?_of_moved hread hrename).1⟩
  | @cutCleaning ready _ h₀ h =>
    rcases h.replaced with ⟨-, h⟩ | ⟨htaken, -⟩
    · exact ⟨ready, h₀.grows, .inl (entryAt?_of_touches (h.trans (touches_remove ..)))⟩
    · cases htaken

/-- Whatever fails in a save and wherever it is cut off, the path leads to what it led to or to the
new document: to the new one if the save succeeds, to the old one if it answers an error. After an
answer no sibling is left, unless it could not be removed. What a path led to is meant with its
directories there; it is what it led to before if that was anything, or if it never goes up. -/
theorem replaced_whole_or_not (hfs : fs.Closed) (process : Nat) (p : Path) (ts : List Task) :
    (∀ fails, ∃ o, Attempted process p ts fs (saveWith fails process fs p ts).1 o ∧
      o.answer? = some (saveWith fails process fs p ts).2 ∧
      (fails (.remove (sibling process p)) = false → o ≠ .leftover)) ∧
    (∀ fails n,
      Attempted process p ts fs (performAll fails fs ((saveSteps process p ts).take n)).1 .cut) ∧
    ∀ {fs' o}, Attempted process p ts fs fs' o → fs'.Closed ∧
      ∃ ready, Grows (fun _ => True) fs ready ∧
        ((∃ there, fs.place p = .ok there) ∨ ".." ∉ p.parts →
          ready.entryAt? p = fs.entryAt? p) ∧
        o.Allows process p ts ready fs' := by
  refine ⟨fun fails => attempted_saveWith fails process fs p ts,
    fun fails n => attempted_take fails process fs p ts n, fun {fs' o} h => ⟨h.closed hfs, ?_⟩⟩
  obtain ⟨ready, hgrows, hallows⟩ := h.allows
  exact ⟨ready, hgrows.mono fun _ => trivial, hfs.entryAt?_of_grows hgrows, hallows⟩

namespace Sample

def below : Path := ⟨false, ["sub", "tasks.json"], false⟩

def unmoved : Step → Bool :=
  fun s => s = .rename (sibling 7 below) below

def longName : String := String.ofList (List.replicate maxNameSize 'L')

def longNamed : Files :=
  blank.set ["home", longName] (.file (.text "[]"))

/-- The same document, by way of a directory that is missing. -/
def detour : Path := ⟨false, ["sub", "..", longName], false⟩

end Sample

/-- The directory is made, the file is not moved, and the path leads nowhere still. -/
theorem replaced_whole_or_not_unmoved :
    blank.Closed ∧ (saveWith Sample.unmoved 7 blank Sample.below []).2 = .error .write ∧
      (saveWith Sample.unmoved 7 blank Sample.below []).1.entryAt? Sample.below = none ∧
      ∀ c, (saveWith Sample.unmoved 7 blank Sample.below []).1.entryAt? (sibling 7 Sample.below) ≠
        some (.file c) := by
  have hblank : blank.Closed := closed_startingAt _
  have hanswer : (saveWith Sample.unmoved 7 blank Sample.below []).2 = .error .write := by
    decide +kernel
  have hnowhere : blank.entryAt? Sample.below = none := by decide +kernel
  obtain ⟨hsave, -, hall⟩ := replaced_whole_or_not hblank 7 Sample.below []
  obtain ⟨o, hattempted, ho, hleft⟩ := hsave Sample.unmoved
  obtain ⟨-, ready, -, hready, hallows⟩ := hall hattempted
  rw [hanswer] at ho
  have hfailed : o = .failed := by
    cases o with
    | failed => rfl
    | leftover => exact absurd rfl (hleft (by decide +kernel))
    | saved => cases ho
    | unready => cases ho
    | cut => cases ho
  subst hfailed
  obtain ⟨hpath, htemp⟩ := hallows
  exact ⟨hblank, hanswer, hpath.trans ((hready (.inr (by decide +kernel))).trans hnowhere), htemp⟩

/-- A save that fails makes the directory, and the path that led nowhere leads to a document. -/
theorem detour_led_nowhere :
    (save 7 Sample.longNamed Sample.detour []).2 = .error .write ∧
      Sample.longNamed.entryAt? Sample.detour = none ∧
      (save 7 Sample.longNamed Sample.detour []).1.entryAt? Sample.detour =
        some (.file (.text "[]")) := by
  refine ⟨?_, ?_, ?_⟩
  · decide +kernel
  · decide +kernel
  · decide +kernel

end Snapshots.Store
