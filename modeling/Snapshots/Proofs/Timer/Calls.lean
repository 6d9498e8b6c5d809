import Snapshots.Proofs.Cron.Fields
import Snapshots.Timer.Loop

/-! # Calls of a timer

Sequences of registrations, removals and passes over the entries, and what each of them does to an
entry. The time to wake up after a pass is the earliest due time.
-/

namespace Snapshots.Timer

open Cron Time

variable {ι : Type}

namespace Loop

/-- The entries that are due at a reading of the clock, and the timer after they were collected. -/
def pass (l : Loop ι) (now : Instant) : Loop ι × List (Handle × ι) :=
  ({ l with phase := .read now } : Loop ι).collect

inductive Call (ι : Type) where
  | register (now : Instant) (expression : String) (job : ι)
  | unregister (h : Handle)
  | pass (now : Instant)

def call (l : Loop ι) : Call ι → Loop ι
  | .register now expression job => (l.register now expression job).1
  | .unregister h => l.unregister h
  | .pass now => (l.pass now).1

def after : List (Call ι) → Loop ι
  | [] => new
  | c :: cs => (after cs).call c

/-- The reading of the clock in a call. -/
def Call.reading? : Call ι → Option Instant
  | register now _ _ | pass now => some now
  | unregister _ => none

def readings (cs : List (Call ι)) : List Instant :=
  cs.filterMap Call.reading?

/-- The clock is never set back. -/
def Ascending (cs : List (Call ι)) : Prop :=
  (readings cs).Pairwise fun later earlier => earlier ≤ later

section Calls

variable {l l' : Loop ι} {now : Instant} {expression : String} {job : ι} {h : Handle} {e : Entry ι}

theorem dueAt_iff : Entry.dueAt e now = true ↔ ∃ u, e.next? = some u ∧ u ≤ now := by
  simp [Entry.dueAt, Option.any_eq_true]

theorem advance_of_due (hdue : Entry.dueAt e now = true) :
    Entry.advance now e = { e with next? := e.schedule.pattern.next? now } :=
  if_pos hdue

theorem advance_of_not_due (hdue : ¬ Entry.dueAt e now = true) : Entry.advance now e = e :=
  if_neg hdue

@[simp] theorem schedule_advance : (Entry.advance now e).schedule = e.schedule := by
  unfold Entry.advance
  split <;> rfl

@[simp] theorem job_advance : (Entry.advance now e).job = e.job := by
  unfold Entry.advance
  split <;> rfl

@[simp] theorem get?_pass (l : Loop ι) (now : Instant) (h : Handle) :
    (l.pass now).1.entries.get? h = (l.entries.get? h).map (Entry.advance now) :=
  Table.get?_mapValues ..

@[simp] theorem lastNumber_pass (l : Loop ι) (now : Instant) :
    (l.pass now).1.lastNumber = l.lastNumber :=
  rfl

structure Fresh (l : Loop ι) (c : Call ι) (h : Handle) (e : Entry ι) : Prop where
  number_eq : h.number = l.lastNumber + 1
  registered : ∃ now expression job schedule, c = .register now expression job ∧
    (l.register now expression job).2 = .ok h ∧ Schedule.parse now expression = .ok schedule ∧
    e = ⟨schedule, schedule.pattern.next? now, job⟩

theorem call_cases {c : Call ι} (hget : (l.call c).entries.get? h = some e) :
    (l.entries.get? h = some e ∧ ∀ now, c ≠ .pass now) ∨
      (∃ now e₀, c = .pass now ∧ l.entries.get? h = some e₀ ∧ e = Entry.advance now e₀) ∨
      Fresh l c h e := by
  cases c with
  | register now expression job =>
    cases hr : l.register now expression job with
    | mk l' r =>
      simp only [call, hr] at hget
      cases r with
      | error f =>
        rw [register_error hr] at hget
        exact .inl ⟨hget, by simp⟩
      | ok k =>
        obtain ⟨schedule, hp, hk, -, hentries⟩ := register_ok hr
        rw [hentries] at hget
        split at hget
        · rename_i heq
          cases hget
          rw [heq]
          exact .inr (.inr ⟨by rw [hk], now, expression, job, schedule, rfl, by rw [hr], hp, rfl⟩)
        · exact .inl ⟨hget, by simp⟩
  | unregister k =>
    simp only [call, get?_unregister] at hget
    split at hget
    · cases hget
    · exact .inl ⟨hget, by simp⟩
  | pass now =>
    simp only [call, get?_pass] at hget
    obtain ⟨e₀, he₀, rfl⟩ := Option.map_eq_some_iff.1 hget
    exact .inr (.inl ⟨now, e₀, rfl, he₀, rfl⟩)

theorem lastNumber_le_call (l : Loop ι) (c : Call ι) : l.lastNumber ≤ (l.call c).lastNumber := by
  cases c with
  | register now expression job =>
    cases hr : l.register now expression job with
    | mk l' r =>
      simp only [call, hr]
      cases r with
      | error f => rw [register_error hr]
      | ok k =>
        obtain ⟨-, -, -, hnumber, -⟩ := register_ok hr
        omega
  | unregister k => simp [call]
  | pass now => simp [call]

end Calls

section Runs

variable {cs : List (Call ι)} {h : Handle} {e : Entry ι} {now : Instant}

theorem next?_eq_some_iff {l : Loop ι} {u : Instant} :
    l.next? h = some u ↔ ∃ e, l.entries.get? h = some e ∧ e.next? = some u :=
  Option.bind_eq_some_iff

theorem number_le (hget : (after cs).entries.get? h = some e) :
    h.number ≤ (after cs).lastNumber := by
  induction cs generalizing e with
  | nil => cases hget
  | cons c cs ih =>
    have hmono := lastNumber_le_call (after cs) c
    rcases call_cases hget with ⟨hget, -⟩ | ⟨now, e₀, -, hget, -⟩ | hfresh
    · exact (ih hget).trans hmono
    · exact (ih hget).trans hmono
    · obtain ⟨hnumber, now, expression, job, schedule, rfl, hr, hp, rfl⟩ := hfresh
      cases hr' : (after cs).register now expression job with
      | mk l' r =>
        rw [hr'] at hr
        obtain rfl : r = .ok h := hr
        obtain ⟨-, -, hk, hlast, -⟩ := register_ok hr'
        simp only [after, call, hr']
        omega

theorem ordered (hget : (after cs).entries.get? h = some e) : e.schedule.pattern.Ordered := by
  induction cs generalizing e with
  | nil => cases hget
  | cons c cs ih =>
    rcases call_cases hget with ⟨hold, -⟩ | ⟨now, e₀, -, hold, rfl⟩ | hfresh
    · exact ih hold
    · rw [schedule_advance]
      exact ih hold
    · obtain ⟨-, now, expression, job, schedule, -, -, hp, rfl⟩ := hfresh
      exact Schedule.ordered_of_parse hp

theorem absent_stays (hle : h.number ≤ (after cs).lastNumber)
    (hget : (after cs).entries.get? h = none) (more : List (Call ι)) :
    h.number ≤ (after (more ++ cs)).lastNumber ∧ (after (more ++ cs)).entries.get? h = none := by
  induction more with
  | nil => exact ⟨hle, hget⟩
  | cons c more ih =>
    rw [List.cons_append]
    refine ⟨ih.1.trans (lastNumber_le_call _ c), ?_⟩
    by_contra hne
    obtain ⟨e, he⟩ := Option.ne_none_iff_exists'.1 hne
    rcases call_cases he with ⟨hsome, -⟩ | ⟨now, e₀, -, hsome, -⟩ | hfresh
    · rw [ih.2] at hsome
      cases hsome
    · rw [ih.2] at hsome
      cases hsome
    · have := hfresh.number_eq
      have := ih.1
      omega

theorem number_le_of_next? {u : Instant} (hu : (after cs).next? h = some u) :
    h.number ≤ (after cs).lastNumber := by
  obtain ⟨e, hget, -⟩ := next?_eq_some_iff.1 hu
  exact number_le hget

theorem lastNumber_le_append (more cs : List (Call ι)) :
    (after cs).lastNumber ≤ (after (more ++ cs)).lastNumber := by
  induction more with
  | nil => exact le_rfl
  | cons c more ih => exact ih.trans (lastNumber_le_call _ c)

theorem earlier?_finds {a b : Option Instant} {S T : Set Instant} (ha : Finds a S)
    (hb : Finds b T) : Finds (earlier? a b) (S ∪ T) := by
  cases a with
  | none =>
    rw [show S = ∅ from ha, Set.empty_union]
    exact hb
  | some x =>
    cases b with
    | none =>
      rw [show T = ∅ from hb, Set.union_empty]
      exact ha
    | some y =>
      obtain ⟨hx, hxle⟩ := ha
      obtain ⟨hy, hyle⟩ := hb
      change Finds (some (if y < x then y else x)) _
      split
      · rename_i hlt
        refine ⟨.inr hy, ?_⟩
        rintro u (hu | hu)
        · exact le_trans (le_of_lt hlt) (hxle hu)
        · exact hyle hu
      · rename_i hle
        refine ⟨.inl hx, ?_⟩
        rintro u (hu | hu)
        · exact hxle hu
        · exact le_trans hle (hyle hu)

theorem next?_finds (e : Entry ι) : Finds e.next? {u | e.next? = some u} := by
  cases e.next? with
  | none => exact Finds.none_iff.2 (by simp)
  | some u =>
    refine ⟨rfl, ?_⟩
    rintro v ⟨⟩
    exact le_refl u

theorem foldl_earlier?_finds (es : List (Entry ι)) {acc : Option Instant} {S : Set Instant}
    (hacc : Finds acc S) : Finds (es.foldl (fun acc e => earlier? acc e.next?) acc)
      (S ∪ {u | ∃ e ∈ es, e.next? = some u}) := by
  induction es generalizing acc S with
  | nil => simpa using hacc
  | cons e es ih =>
    refine (ih (earlier?_finds hacc (next?_finds e))).congr fun u => ?_
    simp [or_assoc]

theorem earliest?_finds (l : Loop ι) :
    Finds (earliest? l.entries) {u | ∃ h, l.next? h = some u} := by
  have hnone : Finds none (∅ : Set Instant) := rfl
  refine (foldl_earlier?_finds l.entries.values hnone).congr fun u => ?_
  rw [Set.empty_union]
  constructor
  · rintro ⟨e, he, hu⟩
    obtain ⟨h, hget⟩ := (Table.mem_values_iff ..).1 he
    exact ⟨h, next?_eq_some_iff.2 ⟨e, hget, hu⟩⟩
  · rintro ⟨h, hu⟩
    obtain ⟨e, hget, hu⟩ := next?_eq_some_iff.1 hu
    exact ⟨e, (Table.mem_values_iff ..).2 ⟨h, hget⟩, hu⟩

theorem wake_pass (l : Loop ι) (now : Instant) : ∃ wake?,
    (l.pass now).1.phase = .collected now wake? ∧
      (∀ w, wake? = some w → IsLeast {u | ∃ h, (l.pass now).1.next? h = some u} w) ∧
      (wake? = none ↔ ∀ h, (l.pass now).1.next? h = none) := by
  have hfinds := earliest?_finds (l.pass now).1
  refine ⟨_, rfl, ?_, ?_⟩
  · intro w hw
    rw [show earliest? (l.pass now).1.entries = some w from hw] at hfinds
    exact hfinds
  · change earliest? (l.pass now).1.entries = none ↔ _
    generalize earliest? (l.pass now).1.entries = wake? at hfinds
    cases wake? with
    | none =>
      refine iff_of_true rfl fun h => Option.eq_none_iff_forall_ne_some.2 fun u hu => ?_
      exact Finds.none_iff.1 hfinds u ⟨h, hu⟩
    | some w =>
      obtain ⟨⟨h, hw⟩, -⟩ := hfinds
      refine iff_of_false (by simp) fun hall => ?_
      rw [hall h] at hw
      cases hw

end Runs

end Loop

end Snapshots.Timer
