import Snapshots.Proofs.Files.Growth
import Snapshots.Proofs.Store.Save

/-! # Attempts to save

A save may fail at every step, for a reason that the tree shows or for another, and may be cut off
before it answers. What was being done then may have been done in part: some of the directories are
made, or the sibling holds anything. The steps of a save come to the file's own place only with the
last of them.
-/

namespace Snapshots.Store

open Files

variable {fails : Step → Bool} {process : Nat} {fs fs' : Files} {p : Path} {c : Content}
  {there temp : Place} {ts : List Task}

/-! ### The sibling -/

theorem length_temporary (name : String) (process : Nat) :
    name.length + 5 ≤ (name ++ ".tmp." ++ toString process).length := by
  have htmp : ".tmp.".length = 5 := by decide
  rw [String.length_append, String.length_append, htmp]
  exact Nat.le_add_right ..

theorem temporary_ne (name : String) (process : Nat) :
    name ++ ".tmp." ++ toString process ≠ name ∧ name ++ ".tmp." ++ toString process ≠ ".." := by
  have hlength := length_temporary name process
  refine ⟨fun h => ?_, fun h => ?_⟩
  · rw [h] at hlength
    omega
  · rw [h, show "..".length = 2 from by decide] at hlength
    omega

theorem sibling_place_ne (hp : fs.place p = .ok there)
    (hs : fs.place (sibling process p) = .ok temp) : temp ≠ there := by
  unfold place at hp hs
  split at hp
  · cases hp
  split at hs
  · cases hs
  simp only [sibling, Path.withFileName] at hs
  cases hname : p.fileName? with
  | some name =>
    obtain ⟨hlast, hdots⟩ := Option.filter_eq_some_iff.1 hname
    obtain ⟨base, hparts⟩ := List.getLast?_eq_some_iff.1 hlast
    rw [hparts] at hp
    simp only [hname, Option.isSome_some, if_true, Option.getD_some, hparts,
      List.dropLast_concat] at hs
    obtain ⟨d, hd, hthere⟩ := walk_concat hp
    obtain ⟨d', hd', htemp⟩ := walk_concat hs
    obtain rfl := Except.ok.inj (hd.symm.trans hd')
    rcases hthere with ⟨hup, -⟩ | ⟨-, rfl⟩
    · simp [hup] at hdots
    · rcases htemp with ⟨hup, -⟩ | ⟨-, rfl⟩
      · exact absurd hup (temporary_ne name process).2
      · simpa using (temporary_ne name process).1
  | none =>
    simp only [hname, Option.isSome_none, Bool.false_eq_true, if_false, Option.getD_none] at hs
    obtain ⟨d, hd, htemp⟩ := walk_concat hs
    obtain rfl := Except.ok.inj (hp.symm.trans hd)
    rcases htemp with ⟨hup, -⟩ | ⟨-, rfl⟩
    · exact absurd hup (temporary_ne "tasks.json" process).2
    · simp

/-! ### Steps that are taken in part -/

/-- The trees that a step may leave behind that was not taken to its end. -/
inductive Step.Leaves (fs : Files) : Step → Files → Prop where
  | nothing {s : Step} : Leaves fs s fs
  | directories {p : Path} (n : Nat) :
    Leaves fs (.ensureDirectory p) (fs.ensureDirectory ⟨p.absolute, p.parts.take n, false⟩).1
  | created {p : Path} {c : Content} {after : Files} :
    fs.write p c = .ok after → Leaves fs (.create p) after
  | written {p : Path} {c c' : Content} {after : Files} :
    fs.write p c' = .ok after → Leaves fs (.write p c) after

/-- Steps are taken, all of them or up to one that is not taken to its end. -/
inductive Performs : Files → List Step → Files → Bool → Prop where
  | done {tree : Files} : Performs tree [] tree true
  | stopped {tree after : Files} {s : Step} {steps : List Step} :
    s.Leaves tree after → Performs tree (s :: steps) after false
  | next {tree between after : Files} {s : Step} {steps : List Step} {taken : Bool} :
    s.perform tree = (between, .ok ()) → Performs between steps after taken →
    Performs tree (s :: steps) after taken

variable {fs₁ : Files} {steps : List Step} {taken : Bool}

theorem unlessRefused_error {r : Except FileError Files} {e : FileError}
    (h : fs.unlessRefused r = (fs', .error e)) : fs' = fs := by
  cases r with
  | ok => cases h
  | error =>
    cases h
    rfl

theorem Step.leaves_of_perform {s : Step} {e : FileError} (h : s.perform fs = (fs', .error e)) :
    s.Leaves fs fs' := by
  cases s with
  | ensureDirectory p =>
    have hleaves : (Step.ensureDirectory p).Leaves fs
        (fs.ensureDirectory ⟨p.absolute, p.parts.take p.parts.length, false⟩).1 := .directories _
    rw [List.take_length] at hleaves
    have hfs' : (fs.ensureDirectory ⟨p.absolute, p.parts, false⟩).1 = fs' := congrArg Prod.fst h
    rw [← hfs']
    exact hleaves
  | sync p => cases h
  | create p => exact unlessRefused_error h ▸ Leaves.nothing
  | write p c => exact unlessRefused_error h ▸ Leaves.nothing
  | rename source target => exact unlessRefused_error h ▸ Leaves.nothing
  | remove p => exact unlessRefused_error h ▸ Leaves.nothing

theorem performs_of_performAll (h : performAll fails fs steps = (fs', taken)) :
    Performs fs steps fs' taken := by
  induction steps generalizing fs with
  | nil =>
    cases h
    exact .done
  | cons s steps ih =>
    rw [performAll] at h
    split at h
    · cases h
      exact .stopped .nothing
    · rcases hs : s.perform fs with ⟨fs₁, r⟩
      rw [hs] at h
      cases r with
      | ok => exact .next hs (ih h)
      | error e =>
        cases h
        exact .stopped (Step.leaves_of_perform hs)

namespace Performs

theorem append (h : Performs fs steps fs' taken) (more : List Step) :
    ∃ taken', Performs fs (steps ++ more) fs' taken' := by
  induction h with
  | done =>
    cases more with
    | nil => exact ⟨true, .done⟩
    | cons s more => exact ⟨false, .stopped .nothing⟩
  | stopped hs => exact ⟨false, .stopped hs⟩
  | next hs _ ih =>
    obtain ⟨taken', ih⟩ := ih
    exact ⟨taken', .next hs ih⟩

theorem of_append {first : List Step} (h : Performs fs (first ++ steps) fs' taken) :
    Performs fs first fs' false ∨ ∃ fs₁, Performs fs first fs₁ true ∧
      Performs fs₁ steps fs' taken := by
  induction first generalizing fs with
  | nil => exact .inr ⟨fs, .done, h⟩
  | cons s first ih =>
    cases h with
    | stopped hs => exact .inl (.stopped hs)
    | next hs h =>
      rcases ih h with h | ⟨fs₁, h, h'⟩
      · exact .inl (.next hs h)
      · exact .inr ⟨fs₁, .next hs h, h'⟩

theorem closed (h : Performs fs steps fs' taken) (hfs : fs.Closed) : fs'.Closed := by
  induction h with
  | done => exact hfs
  | stopped hs =>
    cases hs with
    | nothing => exact hfs
    | directories n => exact hfs.ensureDirectory _
    | created hw => exact hfs.write hw
    | written hw => exact hfs.write hw
  | @next fs fs₁ fs' s steps taken hs h ih =>
    apply ih
    cases s with
    | ensureDirectory p =>
      have hclosed := hfs.ensureDirectory p
      rw [show fs.ensureDirectory p = (fs₁, .ok ()) from hs] at hclosed
      exact hclosed
    | sync p =>
      cases hs
      exact hfs
    | create p => exact hfs.write (unlessRefused_eq_ok_iff.1 hs)
    | write p c => exact hfs.write (unlessRefused_eq_ok_iff.1 hs)
    | rename source target => exact hfs.rename (unlessRefused_eq_ok_iff.1 hs)
    | remove p => exact hfs.remove (unlessRefused_eq_ok_iff.1 hs)

end Performs

/-! ### Saves -/

/-- How a save ended. -/
inductive Outcome where
  | saved
  /-- It answered that there was no directory. -/
  | unready
  /-- It answered that the file was not written, and removed what there was of the sibling. -/
  | failed
  /-- It answered that the file was not written, and could not remove the sibling. -/
  | leftover
  /-- It was cut off before it answered. -/
  | cut
  deriving DecidableEq

namespace Outcome

/-- What the save answered, if it did. -/
def answer? : Outcome → Option (Except SaveError Unit)
  | saved => some (.ok ())
  | unready => some (.error .createDirectory)
  | failed => some (.error .write)
  | leftover => some (.error .write)
  | cut => none

end Outcome

def directorySteps (p : Path) : List Step :=
  if p.parent.parts = [] then [] else [.ensureDirectory p.parent]

/-- A save comes to a tree, and ends there in some way. -/
inductive Attempted (process : Nat) (p : Path) (ts : List Task) (before : Files) :
    Files → Outcome → Prop where
  | saved {ready after : Files} : Performs before (directorySteps p) ready true →
    Performs ready (replaceSteps process p (.text (render ts))) after true →
    Attempted process p ts before after .saved
  | unready {after : Files} : Performs before (directorySteps p) after false →
    Attempted process p ts before after .unready
  | failed {ready stopped : Files} : Performs before (directorySteps p) ready true →
    Performs ready (replaceSteps process p (.text (render ts))) stopped false →
    Attempted process p ts before ((Step.remove (sibling process p)).perform stopped).1 .failed
  | leftover {ready stopped : Files} : Performs before (directorySteps p) ready true →
    Performs ready (replaceSteps process p (.text (render ts))) stopped false →
    Attempted process p ts before stopped .leftover
  | cutMaking {after : Files} {taken : Bool} : Performs before (directorySteps p) after taken →
    Attempted process p ts before after .cut
  | cutReplacing {ready after : Files} {taken : Bool} :
    Performs before (directorySteps p) ready true →
    Performs ready (replaceSteps process p (.text (render ts))) after taken →
    Attempted process p ts before after .cut
  | cutCleaning {ready stopped : Files} : Performs before (directorySteps p) ready true →
    Performs ready (replaceSteps process p (.text (render ts))) stopped false →
    Attempted process p ts before ((Step.remove (sibling process p)).perform stopped).1 .cut

theorem performs_directorySteps {ready : Bool}
    (h : (if p.parent.parts = [] then (fs, true)
      else performAll fails fs [.ensureDirectory p.parent]) = (fs', ready)) :
    Performs fs (directorySteps p) fs' ready := by
  unfold directorySteps
  split at h
  · cases h
    rw [if_pos ‹_›]
    exact .done
  · rw [if_neg ‹_›]
    exact performs_of_performAll h

theorem attempt_eq {s : Step} (h : fails s = false) : attempt fails fs s = (s.perform fs).1 := by
  rw [attempt, performAll, h, if_neg Bool.false_ne_true]
  rcases s.perform fs with ⟨fs₁, e | u⟩ <;> rfl

/-- A save is an attempt that ended as it answered. The sibling is left over only if it cannot be
removed. -/
theorem attempted_saveWith (fails : Step → Bool) (process : Nat) (fs : Files) (p : Path)
    (ts : List Task) :
    ∃ o, Attempted process p ts fs (saveWith fails process fs p ts).1 o ∧
      o.answer? = some (saveWith fails process fs p ts).2 ∧
      (fails (.remove (sibling process p)) = false → o ≠ .leftover) := by
  simp only [saveWith]
  generalize h₀ : (if p.parent.parts = [] then (fs, true)
    else performAll fails fs [.ensureDirectory p.parent]) = r
  obtain ⟨fs₀, ready⟩ := r
  have hready := performs_directorySteps h₀
  cases ready with
  | false => exact ⟨.unready, .unready hready, rfl, by simp⟩
  | true =>
    rcases hsteps : performAll fails fs₀ (replaceSteps process p (.text (render ts)))
      with ⟨fs₁, taken⟩
    have hsteps := performs_of_performAll hsteps
    cases taken with
    | true => exact ⟨.saved, .saved hready hsteps, rfl, by simp⟩
    | false =>
      cases hfails : fails (.remove (sibling process p)) with
      | true =>
        have hleft : attempt fails fs₁ (.remove (sibling process p)) = fs₁ := by
          rw [attempt, performAll, if_pos hfails]
        refine ⟨.leftover, ?_, rfl, by simp⟩
        change Attempted process p ts fs (attempt fails fs₁ _) _
        rw [hleft]
        exact .leftover hready hsteps
      | false =>
        refine ⟨.failed, ?_, rfl, by simp⟩
        change Attempted process p ts fs (attempt fails fs₁ _) _
        rw [attempt_eq hfails]
        exact .failed hready hsteps

/-- The steps of a save, as far as nothing fails. -/
def saveSteps (process : Nat) (p : Path) (ts : List Task) : List Step :=
  directorySteps p ++ replaceSteps process p (.text (render ts))

theorem attempted_take (fails : Step → Bool) (process : Nat) (fs : Files) (p : Path)
    (ts : List Task) (n : Nat) :
    Attempted process p ts fs (performAll fails fs ((saveSteps process p ts).take n)).1 .cut := by
  generalize hall : performAll fails fs ((saveSteps process p ts).take n) = r
  obtain ⟨taken, h⟩ := (performs_of_performAll hall).append ((saveSteps process p ts).drop n)
  rw [List.take_append_drop] at h
  rcases h.of_append with h | ⟨fs₀, h₀, h⟩
  · exact .cutMaking h
  · exact .cutReplacing h₀ h

end Snapshots.Store
