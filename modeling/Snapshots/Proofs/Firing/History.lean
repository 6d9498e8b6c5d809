import Mathlib.Data.List.Induction
import Snapshots.Firing.History

/-! # The history as the end of a log

A history is told of firings and of tasks to forget. For each task it keeps the end of the log of
all that it was told: the newest firings since the task was last forgotten, as many as fit.
-/

namespace Snapshots.Firing

/-- What a history is told. -/
inductive Note where
  | fired (r : Record)
  | forgotten (id : String)
  deriving DecidableEq

namespace Note

def taskId : Note → String
  | fired r => r.taskId
  | forgotten id => id

def recordOf? (id : String) : Note → Option Record
  | fired r => if r.taskId = id then some r else none
  | forgotten _ => none

theorem recordOf?_eq_some {id : String} {n : Note} {r : Record} :
    n.recordOf? id = some r ↔ n = fired r ∧ r.taskId = id := by
  cases n with
  | fired r' =>
    simp only [recordOf?, Option.ite_none_right_eq_some, Option.some.injEq, fired.injEq]
    constructor
    · rintro ⟨h, rfl⟩
      exact ⟨rfl, h⟩
    · rintro ⟨rfl, h⟩
      exact ⟨h, rfl⟩
  | forgotten _ => simp [recordOf?]

end Note

/-- The firings of a task in a log since it was last forgotten, newest first. -/
def recordsSince (id : String) (log : List Note) : List Record :=
  (log.reverse.takeWhile (· ≠ .forgotten id)).filterMap (Note.recordOf? id)

section recordsSince

variable {id : String} {log : List Note}

@[simp]
theorem recordsSince_nil : recordsSince id [] = [] := rfl

theorem recordsSince_append_fired (r : Record) :
    recordsSince id (log ++ [.fired r]) =
      if r.taskId = id then r :: recordsSince id log else recordsSince id log := by
  simp only [recordsSince, List.reverse_append, List.reverse_singleton, List.singleton_append]
  rw [List.takeWhile_cons_of_pos (by simp)]
  by_cases h : r.taskId = id
  · rw [if_pos h, List.filterMap_cons_some (Note.recordOf?_eq_some.2 ⟨rfl, h⟩)]
  · have hn : Note.recordOf? id (.fired r) = none := if_neg h
    rw [if_neg h, List.filterMap_cons_none hn]

theorem recordsSince_append_forgotten (k : String) :
    recordsSince id (log ++ [.forgotten k]) = if k = id then [] else recordsSince id log := by
  simp only [recordsSince, List.reverse_append, List.reverse_singleton, List.singleton_append]
  by_cases h : k = id
  · rw [if_pos h, List.takeWhile_cons_of_neg (by simp [h]), List.filterMap_nil]
  · rw [if_neg h, List.takeWhile_cons_of_pos (by simp [h]), List.filterMap_cons_none rfl]

theorem recordsSince_append_of_ne {n : Note} (h : n.taskId ≠ id) :
    recordsSince id (log ++ [n]) = recordsSince id log := by
  cases n with
  | fired r => exact (recordsSince_append_fired r).trans (if_neg h)
  | forgotten k => exact (recordsSince_append_forgotten k).trans (if_neg h)

theorem taskId_of_mem_recordsSince {r : Record} (h : r ∈ recordsSince id log) : r.taskId = id := by
  obtain ⟨n, -, hn⟩ := List.mem_filterMap.1 h
  exact (Note.recordOf?_eq_some.1 hn).2

theorem recordsSince_filter :
    recordsSince id (log.filter (·.taskId = id)) = recordsSince id log := by
  induction log using List.reverseRecOn with
  | nil => rfl
  | append_singleton log n ih =>
    rw [List.filter_append]
    by_cases h : n.taskId = id
    · rw [List.filter_cons_of_pos (by simpa using h), List.filter_nil]
      cases n with
      | fired r => rw [recordsSince_append_fired, recordsSince_append_fired, ih]
      | forgotten k => rw [recordsSince_append_forgotten, recordsSince_append_forgotten, ih]
    · rw [List.filter_cons_of_neg (by simpa using h), List.filter_nil, List.append_nil, ih,
        recordsSince_append_of_ne h]

end recordsSince

namespace History

section

variable {h : History} {r : Record} {id other : String}

theorem latest?_record_of_ne (hid : id ≠ r.taskId) : (h.record r).latest? id = h.latest? id := by
  rw [latest?_eq_head?, latest?_eq_head?, forTask_record, if_neg hid]

theorem latest?_forget :
    (h.forget id).latest? other = if other = id then none else h.latest? other := by
  rw [latest?_eq_head?, latest?_eq_head?, forTask_forget]
  split <;> rfl

theorem forTask_ne_nil_of_latest? (hr : h.latest? id = some r) : h.forTask id ≠ [] := by
  intro hnil
  rw [latest?_eq_head?, hnil] at hr
  cases hr

end

def note (h : History) : Note → History
  | .fired r => h.record r
  | .forgotten id => h.forget id

@[simp]
theorem limit_note (h : History) (n : Note) : (h.note n).limit = h.limit := by
  cases n <;> rfl

/-- The history that was told a log, oldest note first. -/
def ofLog (limit : Nat) (log : List Note) : History :=
  log.foldl note (.new limit)

variable {limit : Nat} {log : List Note} {id : String}

@[simp]
theorem ofLog_nil : ofLog limit [] = .new limit := rfl

@[simp]
theorem ofLog_append (n : Note) : ofLog limit (log ++ [n]) = (ofLog limit log).note n := by
  rw [ofLog, List.foldl_append]
  rfl

theorem limit_ofLog : (ofLog limit log).limit = max limit 1 := by
  induction log using List.reverseRecOn with
  | nil => rfl
  | append_singleton log n ih => rw [ofLog_append, limit_note, ih]

/-- Dropping what no longer fits at each firing comes to the same as dropping it at the end. -/
theorem forTask_ofLog :
    (ofLog limit log).forTask id = (recordsSince id log).take (max limit 1) := by
  induction log using List.reverseRecOn with
  | nil => simp [forTask, new]
  | append_singleton log n ih =>
    rw [ofLog_append]
    cases n with
    | fired r =>
      rw [note, forTask_record, recordsSince_append_fired, ih, limit_ofLog]
      by_cases h : r.taskId = id
      · -- at least one record fits, so the new one does
        obtain ⟨k, hk⟩ : ∃ k, max limit 1 = k + 1 := Nat.exists_eq_succ_of_ne_zero (by omega)
        rw [if_pos h.symm, if_pos h, hk, List.take_succ_cons, List.take_succ_cons, List.take_take,
          Nat.min_eq_left k.le_succ]
      · rw [if_neg (Ne.symm h), if_neg h]
    | forgotten k =>
      rw [note, forTask_forget, recordsSince_append_forgotten, ih]
      by_cases h : k = id
      · rw [if_pos h.symm, if_pos h, List.take_nil]
      · rw [if_neg (Ne.symm h), if_neg h]

theorem latest?_ofLog : (ofLog limit log).latest? id = (recordsSince id log).head? := by
  rw [latest?_eq_head?, forTask_ofLog, List.head?_take, if_neg (by omega)]

theorem taskId_of_mem_ofLog {r : Record} (h : r ∈ (ofLog limit log).forTask id) :
    r.taskId = id := by
  rw [forTask_ofLog] at h
  exact taskId_of_mem_recordsSince (List.mem_of_mem_take h)

theorem length_ofLog_le : ((ofLog limit log).forTask id).length ≤ max limit 1 := by
  rw [forTask_ofLog]
  exact List.length_take_le ..

/-- A history keeps the newest firings of each task since the task was last forgotten, newest
first, as many as fit, and what it is told about other tasks changes nothing. -/
theorem ofLog_keeps_newest (limit : Nat) (log : List Note) (id : String) :
    (ofLog limit log).forTask id = (recordsSince id log).take (max limit 1) ∧
      (ofLog limit log).latest? id = ((ofLog limit log).forTask id).head? ∧
      ((ofLog limit log).latest? id = none ↔ (ofLog limit log).forTask id = []) ∧
      (ofLog limit (log.filter (·.taskId = id))).forTask id = (ofLog limit log).forTask id ∧
      (ofLog limit (log.filter (·.taskId = id))).latest? id = (ofLog limit log).latest? id := by
  refine ⟨forTask_ofLog, latest?_eq_head? .., ?_, ?_, ?_⟩
  · rw [latest?_eq_head?, List.head?_eq_none_iff]
  · rw [forTask_ofLog, forTask_ofLog, recordsSince_filter]
  · rw [latest?_ofLog, latest?_ofLog, recordsSince_filter]

end History

end Snapshots.Firing
