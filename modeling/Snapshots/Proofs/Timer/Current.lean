import Snapshots.Proofs.Timer.Passes

/-! # Entries that are up to date

An entry is up to date at an instant if the due time that it keeps is its first fire time after
that instant. It stays so as long as it is not due, and a pass brings it up to date again.
-/

namespace Snapshots.Timer.Loop

open Cron Time

variable {ι : Type} {l : Loop ι} {e : Entry ι} {r now : Instant}

theorem get?_insert (l : Loop ι) (now : Instant) (schedule : Schedule) (job : ι) (h : Handle) :
    (l.insert now schedule job).entries.get? h =
      if h = ⟨l.lastNumber + 1⟩ then some ⟨schedule, schedule.pattern.next? now, job⟩
      else l.entries.get? h :=
  Table.get?_insert ..

/-- The due time of an entry is its first fire time after an instant. -/
structure Entry.CurrentAt (r : Instant) (e : Entry ι) : Prop where
  ordered : e.schedule.pattern.Ordered
  searchable : Pattern.Searchable r
  next?_eq : e.next? = e.schedule.pattern.next? r

theorem Entry.currentAt_of_parse {expression : String} {schedule : Schedule}
    (hp : Schedule.parse now expression = .ok schedule) (job : ι) :
    Entry.CurrentAt now ⟨schedule, schedule.pattern.next? now, job⟩ := by
  obtain ⟨u, hu⟩ := Option.isSome_iff_exists.1 (Schedule.parse_eq_ok_iff.1 hp).2.2.2
  exact ⟨Schedule.ordered_of_parse hp, Pattern.searchable_of_next? hu, rfl⟩

theorem Entry.currentAt_of_insert {expression : String} {schedule : Schedule}
    (hp : Schedule.parse now expression = .ok schedule) {job : ι} {h : Handle}
    (he : (l.insert now schedule job).entries.get? h = some e) :
    Entry.CurrentAt now e ∨ l.entries.get? h = some e := by
  rw [get?_insert] at he
  split at he
  · cases he
    exact .inl (Entry.currentAt_of_parse hp job)
  · exact .inr he

namespace Entry.CurrentAt

theorem dueAt_iff (h : Entry.CurrentAt r e) : Entry.dueAt e now = true ↔
    ∃ t, e.schedule.pattern.Matches t ∧ r < t ∧ t ≤ now :=
  due_iff h.ordered h.searchable h.next?_eq

theorem of_not_due (h : Entry.CurrentAt r e) (hle : r ≤ now)
    (hdue : ¬ Entry.dueAt e now = true) : Entry.CurrentAt now e := by
  refine ⟨h.ordered, h.searchable.mono hle, ?_⟩
  rw [h.next?_eq]
  refine (h.ordered.next?_eq_of_le h.searchable hle fun v hv hlt => ?_).symm
  rw [h.dueAt_iff] at hdue
  exact not_le.1 fun hvn => hdue ⟨v, hv, hlt, hvn⟩

theorem advance (h : Entry.CurrentAt r e) (hle : r ≤ now) :
    Entry.CurrentAt now (Entry.advance now e) := by
  by_cases hdue : Entry.dueAt e now = true
  · rw [advance_of_due hdue]
    exact ⟨h.ordered, h.searchable.mono hle, rfl⟩
  · rw [advance_of_not_due hdue]
    exact h.of_not_due hle hdue

end Entry.CurrentAt

end Snapshots.Timer.Loop
