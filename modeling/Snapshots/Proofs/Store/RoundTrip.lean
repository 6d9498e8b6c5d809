import Snapshots.Proofs.Store.Save
import Snapshots.Proofs.Task.Json
import Snapshots.Proofs.Task.Order

/-! # Tasks that were saved are loaded

A file that was saved loads as its tasks in the order of lists, with the times at which they are due
left out. The file does not depend on the order in which tasks of different identities were given.
-/

namespace Snapshots.Store

open Json

theorem map_kept_sorted (ts : List Task) :
    (Task.sorted (ts.map kept)).map kept = Task.sorted (ts.map kept) := by
  rw [Task.map_sorted (f := kept) fun _ => ⟨rfl, rfl⟩, List.map_map]
  rfl

/-- The text of some tasks is read as these tasks, sorted. -/
theorem parse_render (ts : List Task) : parse (.text (render ts)) = Task.sorted (ts.map kept) := by
  have hread : reading (.text (render ts)) =
      ((Json.array ((Task.sorted (ts.map kept)).map Task.toJson)).reading, false) :=
    Reading.ofText_toPretty (numberFree_array fun v hv => by
      obtain ⟨t, -, rfl⟩ := List.mem_map.1 hv
      exact t.numberFree_toJson)
  have hlist := Decoder.list_reading Task.decode_reading (Task.sorted (ts.map kept))
  have hsome : Decoder.optional (Decoder.list Task.decode)
      (Json.array ((Task.sorted (ts.map kept)).map Task.toJson)).reading =
        .ok (some (Task.sorted (ts.map kept))) :=
    congrArg (Except.map some) hlist
  simp only [parse, hread, hsome]
  exact map_kept_sorted ts

theorem kept_of_mem_load {fs : Files} {p : Path} {t : Task} (h : t ∈ load fs p) : kept t = t := by
  unfold load at h
  split at h
  · simp only [parse] at h
    split at h
    · split at h
      · cases h
      · obtain ⟨t, -, rfl⟩ := List.mem_map.1 h
        rfl
    · cases h
  · cases h

theorem load_eq_of_saveWith {fails : Step → Bool} {process : Nat} {fs fs' : Files} {p : Path}
    {ts : List Task} (h : saveWith fails process fs p ts = (fs', .ok ())) :
    load fs' p = Task.sorted (ts.map kept) := by
  rw [load, read_of_saveWith h]
  exact parse_render ts

theorem render_eq_of_perm {ts ts' : List Task} (hp : ts.Perm ts') (hid : (ts.map Task.id).Nodup) :
    render ts = render ts' := by
  have hid' : ((ts.map kept).map Task.id).Nodup := by
    rw [List.map_map]
    exact hid
  rw [render, render, Task.sorted_eq_of_perm (hp.map kept) hid']

/-- Tasks that were saved are loaded as they were, without their due times, none lost and none
doubled, sorted by creation and identity and otherwise in their order. The same tasks in another
order, if their identities differ, are saved as the same document, wherever that is. -/
theorem saved_tasks_load {fails : Step → Bool} {process : Nat} {fs fs' : Files} {p : Path}
    {ts : List Task} (h : saveWith fails process fs p ts = (fs', .ok ())) :
    (load fs' p).Perm (ts.map kept) ∧
      (load fs' p).Pairwise (fun a b => a.listedBefore b = true) ∧
      (∀ createdAt id, (load fs' p).filter (fun t => t.createdAt = createdAt ∧ t.id = id) =
        (ts.map kept).filter fun t => t.createdAt = createdAt ∧ t.id = id) ∧
      load fs' p = Task.sorted (ts.map kept) ∧
      ((ts.map Task.id).Nodup → ∀ {fails' process' fs₁ fs₁' p' ts'}, ts'.Perm ts →
        saveWith fails' process' fs₁ p' ts' = (fs₁', .ok ()) → fs₁'.read p' = fs'.read p) := by
  rw [load_eq_of_saveWith h]
  refine ⟨Task.sorted_perm _, Task.sorted_pairwise _, Task.filter_sorted _, rfl, ?_⟩
  intro hid fails' process' fs₁ fs₁' p' ts' hp h'
  rw [read_of_saveWith h, read_of_saveWith h', render_eq_of_perm hp.symm hid]

namespace Sample

/-- A task with odd characters, a leap second and a year of five digits. -/
def odd : Task where
  id := "b"
  name := "say \"hi\"\n\u0001"
  ns := "дом"
  sourceVolume := "😀"
  snapshotClass := "\\"
  cron := ""
  enabled := false
  targets := ["", "east"]
  createdBy := ""
  createdAt := (Time.Instant.ofParts? 1483228799 1500000000).getD default
  updatedAt := (Time.Instant.ofParts? 253402300800 1).getD default
  lastExecuted := Time.Instant.ofParts? (-62167219201) 0
  nextExecution := some default

def path : Path := ⟨false, ["tasks.json"], false⟩

end Sample

/-- The later of two tasks is saved first, with a due time, and comes back last and without it. -/
theorem saved_tasks_load_sample :
    ∃ fs', save 7 .blank Sample.path [{ Sample.odd with id := "c" }, Sample.odd] = (fs', .ok ()) ∧
      (load fs' Sample.path).Perm
        [{ Sample.odd with id := "c", nextExecution := none },
          { Sample.odd with nextExecution := none }] := by
  have h : (save 7 .blank Sample.path [{ Sample.odd with id := "c" }, Sample.odd]).2 = .ok () := by
    decide +kernel
  exact ⟨_, Prod.ext rfl h, (saved_tasks_load (Prod.ext rfl h)).1⟩

end Snapshots.Store
