import Snapshots.Proofs.Files.Tree
import Snapshots.Store

/-! # Saving

Saving succeeds if all of its steps are taken, and then the path holds what was saved.
-/

namespace Snapshots.Store

open Files

variable {fails : Step → Bool} {process : Nat} {fs fs' : Files} {p : Path} {c : Content}

theorem performAll_cons_iff {step : Step} {steps : List Step} :
    performAll fails fs (step :: steps) = (fs', true) ↔
      fails step = false ∧ ∃ fs₁, step.perform fs = (fs₁, .ok ()) ∧
        performAll fails fs₁ steps = (fs', true) := by
  rw [performAll]
  cases hf : fails step with
  | true => simp
  | false =>
    rcases hs : step.perform fs with ⟨fs₁, r⟩
    cases r with
    | error e => simp
    | ok => simp

theorem read_of_replaceSteps
    (h : performAll fails fs (replaceSteps process p c) = (fs', true)) : fs'.read p = .ok c := by
  simp only [replaceSteps, performAll_cons_iff, Step.perform, unlessRefused_eq_ok_iff] at h
  obtain ⟨-, fs₁, -, -, fs₂, hwrite, -, fs₃, hsync, -, fs₄, hrename, hend⟩ := h
  cases hsync
  cases hend
  exact Files.read_of_rename hrename (Files.read_of_write hwrite)

theorem replaceSteps_of_saveWith {ts : List Task}
    (h : saveWith fails process fs p ts = (fs', .ok ())) :
    ∃ fs₀, (if p.parent.parts = [] then (fs, true)
        else performAll fails fs [.ensureDirectory p.parent]) = (fs₀, true) ∧
      performAll fails fs₀ (replaceSteps process p (.text (render ts))) = (fs', true) := by
  simp only [saveWith] at h
  generalize (if p.parent.parts = [] then (fs, true)
    else performAll fails fs [.ensureDirectory p.parent]) = r at *
  obtain ⟨fs₀, ready⟩ := r
  cases ready with
  | false => cases h
  | true =>
    refine ⟨fs₀, rfl, ?_⟩
    rcases hsteps : performAll fails fs₀ (replaceSteps process p (.text (render ts)))
      with ⟨fs₁, taken⟩
    rw [hsteps] at h
    cases taken with
    | false => cases h
    | true =>
      cases h
      rfl

theorem read_of_saveWith {ts : List Task}
    (h : saveWith fails process fs p ts = (fs', .ok ())) :
    fs'.read p = .ok (.text (render ts)) := by
  obtain ⟨fs₀, -, hsteps⟩ := replaceSteps_of_saveWith h
  exact read_of_replaceSteps hsteps

end Snapshots.Store
