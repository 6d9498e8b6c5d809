import Snapshots.Firing.Record
import Snapshots.Table

/-! # Firing history

The latest firings of each task, newest first, up to a limit of at least one.
-/

namespace Snapshots.Firing

/-- The firings that are remembered for each task. -/
structure History where
  limit : Nat
  limit_pos : 0 < limit
  records : Table String (List Record)

namespace History

/-- A history that remembers so many firings of a task, and at least one. -/
def new (limit : Nat) : History where
  limit := max limit 1
  limit_pos := by omega
  records := .empty

instance : Inhabited History := ⟨new 1⟩

def forTask (h : History) (id : String) : List Record :=
  (h.records.get? id).getD []

def latest? (h : History) (id : String) : Option Record :=
  (h.records.get? id).bind (·.head?)

def record (h : History) (r : Record) : History :=
  { h with records := h.records.insert r.taskId ((r :: h.forTask r.taskId).take h.limit) }

def forget (h : History) (id : String) : History :=
  { h with records := h.records.erase id }

theorem forTask_record (h : History) (r : Record) (id : String) :
    (h.record r).forTask id =
      if id = r.taskId then (r :: h.forTask id).take h.limit else h.forTask id := by
  unfold record forTask
  simp only [Table.get?_insert]
  split
  · rename_i e
    simp [e]
  · rfl

theorem latest?_eq_head? (h : History) (id : String) :
    h.latest? id = (h.forTask id).head? := by
  unfold latest? forTask
  cases h.records.get? id <;> rfl

theorem latest?_record (h : History) (r : Record) :
    (h.record r).latest? r.taskId = some r := by
  simp [latest?_eq_head?, forTask_record, List.head?_take, Nat.ne_of_gt h.limit_pos]

theorem forTask_forget (h : History) (id other : String) :
    (h.forget id).forTask other = if other = id then [] else h.forTask other := by
  unfold forget forTask
  simp only [Table.get?_erase]
  split <;> rfl

end History

end Snapshots.Firing
