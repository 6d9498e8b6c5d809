import Snapshots.Proofs.Timer.Calls

/-! # What a timer fires

The due time that an entry keeps is the first fire time after it was last looked at, so that a pass
fires the entries that had a fire time since then. However the clock moves, due times only move
ahead. Main statement: `Loop.fires_what_is_due`.
-/

namespace Snapshots.Timer

open Cron Time

variable {ι : Type}

namespace Loop

/-- When the entry of a handle was registered. -/
def registeredAt? (h : Handle) : List (Call ι) → Option Instant
  | [] => none
  | .register now expression job :: cs =>
    match ((after cs).register now expression job).2 with
    | .ok k => if k = h then some now else registeredAt? h cs
    | .error _ => registeredAt? h cs
  | _ :: cs => registeredAt? h cs

def lastPass? : List (Call ι) → Option Instant
  | [] => none
  | .pass now :: _ => some now
  | _ :: cs => lastPass? cs

def later (a b : Instant) : Instant :=
  if a < b then b else a

/-- The later of the registration of an entry and the last pass. -/
def since? (h : Handle) (cs : List (Call ι)) : Option Instant :=
  (registeredAt? h cs).map fun r => (lastPass? cs).elim r (later r)

/-- The fire times for which an entry was fired, the latest pass first. -/
def dispatched (h : Handle) : List (Call ι) → List Instant
  | [] => []
  | .pass now :: cs => (((after cs).next? h).filter (· ≤ now)).toList ++ dispatched h cs
  | _ :: cs => dispatched h cs

variable {cs : List (Call ι)} {h : Handle} {e : Entry ι} {now : Instant}

theorem registeredAt?_mem {r : Instant} (hr : registeredAt? h cs = some r) : r ∈ readings cs := by
  induction cs with
  | nil => cases hr
  | cons c cs ih =>
    have hmem : readings cs ⊆ readings (c :: cs) := by
      unfold readings
      rw [List.filterMap_cons]
      split
      · exact List.Subset.refl _
      · exact List.subset_cons_self ..
    cases c with
    | register now expression job =>
      simp only [registeredAt?] at hr
      split at hr
      · split at hr
        · cases hr
          exact List.mem_cons_self
        · exact hmem (ih hr)
      · exact hmem (ih hr)
    | unregister k => exact hmem (ih hr)
    | pass now => exact hmem (ih hr)

theorem lastPass?_mem {r : Instant} (hr : lastPass? cs = some r) : r ∈ readings cs := by
  induction cs with
  | nil => cases hr
  | cons c cs ih =>
    cases c with
    | register now expression job => exact List.mem_cons_of_mem _ (ih hr)
    | unregister k => exact ih hr
    | pass now =>
      cases hr
      exact List.mem_cons_self

theorem later_of_le {a b : Instant} (h : b ≤ a) : later a b = a :=
  if_neg h

theorem later_of_ge {a b : Instant} (h : a ≤ b) : later a b = b := by
  unfold later
  split
  · rfl
  · exact le_antisymm h ‹_›

theorem registeredAt?_register_of_live (hget : (after cs).entries.get? h = some e)
    (expression : String) (job : ι) :
    registeredAt? h (.register now expression job :: cs) = registeredAt? h cs := by
  simp only [registeredAt?]
  split
  · rename_i k hk
    cases hr : (after cs).register now expression job with
    | mk l' r =>
      rw [hr] at hk
      obtain rfl : r = .ok k := hk
      obtain ⟨-, -, rfl, -⟩ := register_ok hr
      have hle := number_le hget
      split
      · rename_i heq
        rw [← heq] at hle
        exact absurd hle (Nat.not_succ_le_self _)
      · rfl
  · rfl

theorem due_iff {r : Instant} (hp : e.schedule.pattern.Ordered) (hr : Pattern.Searchable r)
    (hnext : e.next? = e.schedule.pattern.next? r) : Entry.dueAt e now = true ↔
      ∃ t, e.schedule.pattern.Matches t ∧ r < t ∧ t ≤ now := by
  rw [dueAt_iff, hnext]
  constructor
  · rintro ⟨u, hu, hle⟩
    obtain ⟨hmatches, hlt, -⟩ := hp.next?_eq_some hu
    exact ⟨u, hmatches, hlt, hle⟩
  · rintro ⟨t, ht, hlt, hle⟩
    cases hu : e.schedule.pattern.next? r with
    | none => exact absurd hlt ((hp.next?_eq_none_iff hr).1 hu t ht)
    | some u =>
      obtain ⟨-, -, hleast⟩ := hp.next?_eq_some hu
      exact ⟨u, rfl, le_trans (hleast t ht hlt) hle⟩

theorem since?_pass {r : Instant} (hcs : Ascending (.pass now :: cs))
    (hr : registeredAt? h cs = some r) : since? h (.pass now :: cs) = some now := by
  have hle : r ≤ now := (List.pairwise_cons.1 hcs).1 r (registeredAt?_mem hr)
  rw [since?, show registeredAt? h (.pass now :: cs) = some r from hr]
  exact congrArg some (later_of_ge hle)

theorem Ascending.of_cons {c : Call ι} (hcs : Ascending (c :: cs)) : Ascending cs := by
  unfold Ascending readings at *
  rw [List.filterMap_cons] at hcs
  split at hcs
  · exact hcs
  · exact (List.pairwise_cons.1 hcs).2

theorem since?_register {expression : String} {job : ι}
    (hcs : Ascending (.register now expression job :: cs))
    (hr : ((after cs).register now expression job).2 = .ok h) :
    since? h (.register now expression job :: cs) = some now := by
  have hreg : registeredAt? h (.register now expression job :: cs) = some now := by
    simp only [registeredAt?, hr, if_true]
  rw [since?, hreg, Option.map_some]
  cases hlast : lastPass? cs with
  | none => simp only [lastPass?, hlast, Option.elim_none]
  | some p =>
    have hle : p ≤ now := (List.pairwise_cons.1 hcs).1 p (lastPass?_mem hlast)
    simp only [lastPass?, hlast, Option.elim_some]
    exact congrArg some (later_of_le hle)

/-- As long as the clock is not set back, the due time of an entry is its first fire time after the
entry was last looked at. -/
theorem current (hcs : Ascending cs) (hget : (after cs).entries.get? h = some e) :
    ∃ r, since? h cs = some r ∧ r ∈ readings cs ∧ Pattern.Searchable r ∧
      e.next? = e.schedule.pattern.next? r := by
  induction cs generalizing e with
  | nil => cases hget
  | cons c cs ih =>
    have hrest : Ascending cs := hcs.of_cons
    rcases call_cases hget with ⟨hold, hpass⟩ | ⟨now, e₀, rfl, hold, rfl⟩ | hfresh
    · obtain ⟨r, hr, hmem, hsearch, hnext⟩ := ih hrest hold
      cases c with
      | register now expression job =>
        refine ⟨r, ?_, List.mem_cons_of_mem _ hmem, hsearch, hnext⟩
        rw [since?, registeredAt?_register_of_live hold]
        exact hr
      | unregister k => exact ⟨r, hr, hmem, hsearch, hnext⟩
      | pass now => exact absurd rfl (hpass now)
    · -- A pass looks at the entry again, whether or not it is due.
      obtain ⟨r, hr, hmem, hsearch, hnext⟩ := ih hrest hold
      have hle := (List.pairwise_cons.1 hcs).1
      obtain ⟨r₀, hr₀, -⟩ := Option.map_eq_some_iff.1 hr
      refine ⟨now, since?_pass hcs hr₀, List.mem_cons_self, hsearch.mono (hle r hmem), ?_⟩
      by_cases hdue : Entry.dueAt e₀ now = true
      · rw [advance_of_due hdue]
      · rw [advance_of_not_due hdue, hnext]
        refine ((ordered hold).next?_eq_of_le hsearch (hle r hmem) ?_).symm
        rw [due_iff (ordered hold) hsearch hnext] at hdue
        exact fun v hv hlt => not_le.1 fun hvn => hdue ⟨v, hv, hlt, hvn⟩
    · obtain ⟨-, now, expression, job, schedule, rfl, hr, hp, rfl⟩ := hfresh
      have hsome := (Schedule.parse_eq_ok_iff.1 hp).2.2.2
      obtain ⟨u, hu⟩ := Option.isSome_iff_exists.1 hsome
      exact ⟨now, since?_register hcs hr, List.mem_cons_self, Pattern.searchable_of_next? hu, rfl⟩

theorem mem_pass_iff {l : Loop ι} {job : ι} : (h, job) ∈ (l.pass now).2 ↔
    ∃ e, l.entries.get? h = some e ∧ Entry.dueAt e now = true ∧ e.job = job := by
  change (h, job) ∈ l.due now ↔ _
  simp only [due, List.mem_map, List.mem_filter, Prod.exists, Table.mem_entries_iff, Prod.mk.injEq]
  constructor
  · rintro ⟨k, e, ⟨hget, hdue⟩, rfl, rfl⟩
    exact ⟨e, hget, hdue, rfl⟩
  · rintro ⟨e, hget, hdue, rfl⟩
    exact ⟨h, e, ⟨hget, hdue⟩, rfl, rfl⟩

theorem nodup_pass (l : Loop ι) (now : Instant) : ((l.pass now).2.map Prod.fst).Nodup := by
  change ((l.due now).map Prod.fst).Nodup
  rw [due, List.map_map]
  exact l.entries.nodup.sublist (List.filter_sublist.map Prod.fst)

theorem dispatched_of_le {u : Instant} (hu : (after cs).next? h = some u) (hle : u ≤ now) :
    dispatched h (.pass now :: cs) = u :: dispatched h cs := by
  rw [dispatched, hu, Option.filter_some, if_pos (by simpa using hle)]
  rfl

theorem dispatched_of_not_le {u : Instant} (hu : (after cs).next? h = some u) (hle : ¬ u ≤ now) :
    dispatched h (.pass now :: cs) = dispatched h cs := by
  rw [dispatched, hu, Option.filter_some, if_neg (by simpa using hle)]
  rfl

theorem dispatched_of_none (hu : (after cs).next? h = none) :
    dispatched h (.pass now :: cs) = dispatched h cs := by
  rw [dispatched, hu]
  rfl

theorem next?_call {c : Call ι} {u v : Instant} (hu : (after cs).next? h = some u)
    (hv : (after (c :: cs)).next? h = some v) :
    (u = v ∧ dispatched h (c :: cs) = dispatched h cs) ∨
      u < v ∧ dispatched h (c :: cs) = u :: dispatched h cs := by
  obtain ⟨e₀, hget₀, hu₀⟩ := next?_eq_some_iff.1 hu
  obtain ⟨e, hget, hv₀⟩ := next?_eq_some_iff.1 hv
  rcases call_cases hget with ⟨hold, hpass⟩ | ⟨now, e₁, rfl, hold, rfl⟩ | hfresh
  · rw [hget₀] at hold
    cases hold
    rw [hu₀] at hv₀
    cases hv₀
    cases c with
    | pass now => exact absurd rfl (hpass now)
    | _ => exact .inl ⟨rfl, rfl⟩
  · rw [hget₀] at hold
    cases hold
    by_cases hdue : Entry.dueAt e₀ now = true
    · rw [advance_of_due hdue] at hv₀
      obtain ⟨u', hu', hle⟩ := dueAt_iff.1 hdue
      rw [hu₀] at hu'
      cases hu'
      obtain ⟨-, hlt, -⟩ := (ordered hget₀).next?_eq_some hv₀
      exact .inr ⟨lt_of_le_of_lt hle hlt, dispatched_of_le hu hle⟩
    · rw [advance_of_not_due hdue, hu₀] at hv₀
      cases hv₀
      have hlt : ¬ u ≤ now := fun hle => hdue (dueAt_iff.2 ⟨u, hu₀, hle⟩)
      exact .inl ⟨rfl, dispatched_of_not_le hu hlt⟩
  · have := hfresh.number_eq
    have := number_le hget₀
    omega

theorem next?_of_cons {c : Call ι} {v : Instant} (hle : h.number ≤ (after cs).lastNumber)
    (hv : (after (c :: cs)).next? h = some v) : ∃ u, (after cs).next? h = some u := by
  obtain ⟨e, hget, hv⟩ := next?_eq_some_iff.1 hv
  rcases call_cases hget with ⟨hold, -⟩ | ⟨now, e₀, -, hold, rfl⟩ | hfresh
  · exact ⟨v, next?_eq_some_iff.2 ⟨e, hold, hv⟩⟩
  · by_cases hdue : Entry.dueAt e₀ now = true
    · obtain ⟨u, hu, -⟩ := dueAt_iff.1 hdue
      exact ⟨u, next?_eq_some_iff.2 ⟨e₀, hold, hu⟩⟩
    · rw [advance_of_not_due hdue] at hv
      exact ⟨v, next?_eq_some_iff.2 ⟨e₀, hold, hv⟩⟩
  · have := hfresh.number_eq
    omega

theorem next?_append {u v : Instant} (hu : (after cs).next? h = some u) (more : List (Call ι))
    (hv : (after (more ++ cs)).next? h = some v) :
    (u = v ∧ dispatched h (more ++ cs) = dispatched h cs) ∨ u < v := by
  induction more generalizing v with
  | nil =>
    rw [List.nil_append, hu] at hv
    cases hv
    exact .inl ⟨rfl, rfl⟩
  | cons c more ih =>
    have hle := (number_le_of_next? hu).trans (lastNumber_le_append more cs)
    obtain ⟨w, hw⟩ := next?_of_cons hle hv
    rcases next?_call hw hv with ⟨rfl, hsame⟩ | ⟨hlt, -⟩
    · rcases ih hw with ⟨rfl, hmore⟩ | hlt
      · exact .inl ⟨rfl, hsame.trans hmore⟩
      · exact .inr hlt
    · rcases ih hw with ⟨rfl, -⟩ | hlt'
      · exact .inr hlt
      · exact .inr (lt_trans hlt' hlt)

theorem dispatched_cons (c : Call ι) : dispatched h (c :: cs) = dispatched h cs ∨
    ∃ u, (after cs).next? h = some u ∧ dispatched h (c :: cs) = u :: dispatched h cs := by
  cases c with
  | pass now =>
    cases hu : (after cs).next? h with
    | none => exact .inl (dispatched_of_none hu)
    | some u =>
      by_cases hle : u ≤ now
      · exact .inr ⟨u, rfl, dispatched_of_le hu hle⟩
      · exact .inl (dispatched_of_not_le hu hle)
  | _ => exact .inl rfl

theorem dispatched_of_lastNumber_lt (hlt : (after cs).lastNumber < h.number) :
    dispatched h cs = [] := by
  induction cs with
  | nil => rfl
  | cons c cs ih =>
    have hlt' := (lastNumber_le_call (after cs) c).trans_lt hlt
    rcases dispatched_cons c with hsame | ⟨u, hu, -⟩
    · rw [hsame, ih hlt']
    · exact absurd (number_le_of_next? hu) (Nat.not_le.2 hlt')

/-- However the clock moves, an entry is fired for ever later fire times. -/
theorem dispatched_descending (h : Handle) (cs : List (Call ι)) :
    (dispatched h cs).Pairwise (fun later earlier => earlier < later) ∧
      ∀ u, (after cs).next? h = some u → ∀ t ∈ dispatched h cs, t < u := by
  induction cs with
  | nil => exact ⟨.nil, by simp [dispatched]⟩
  | cons c cs ih =>
    obtain ⟨hpair, hbelow⟩ := ih
    constructor
    · rcases dispatched_cons c with hsame | ⟨u, hu, hcons⟩
      · rw [hsame]
        exact hpair
      · rw [hcons]
        exact List.pairwise_cons.2 ⟨hbelow u hu, hpair⟩
    · intro v hv t ht
      by_cases hle : h.number ≤ (after cs).lastNumber
      · obtain ⟨u, hu⟩ := next?_of_cons hle hv
        rcases next?_call hu hv with ⟨rfl, hsame⟩ | ⟨hlt, hcons⟩
        · rw [hsame] at ht
          exact hbelow u hu t ht
        · rw [hcons] at ht
          rcases List.mem_cons.1 ht with rfl | ht
          · exact hlt
          · exact lt_trans (hbelow u hu t ht) hlt
      · -- The entry was added by this call, and was not fired before.
        have hnil := dispatched_of_lastNumber_lt (Nat.not_le.1 hle)
        rcases dispatched_cons c with hsame | ⟨u, hu, -⟩
        · rw [hsame, hnil] at ht
          cases ht
        · exact absurd (number_le_of_next? hu) hle

theorem next?_register {l' : Loop ι} {expression : String} {job : ι}
    (hr : (after cs).register now expression job = (l', .ok h)) :
    ∃ e u, l'.entries.get? h = some e ∧ e.job = job ∧ e.next? = some u ∧ now < u := by
  obtain ⟨schedule, hp, rfl, -, hentries⟩ := register_ok hr
  obtain ⟨u, hu⟩ := Option.isSome_iff_exists.1 (Schedule.parse_eq_ok_iff.1 hp).2.2.2
  obtain ⟨-, hlt, -⟩ := (Schedule.ordered_of_parse hp).next?_eq_some hu
  exact ⟨_, u, by rw [hentries, if_pos rfl], rfl, hu, hlt⟩

theorem next?_pass (hcs : Ascending (.pass now :: cs))
    (hget : (after (.pass now :: cs)).entries.get? h = some e) :
    e.next? = e.schedule.pattern.next? now := by
  obtain ⟨r, hr, -, -, hnext⟩ := current hcs hget
  obtain ⟨r₀, hr₀, -⟩ := Option.map_eq_some_iff.1 hr
  rw [since?_pass hcs hr₀] at hr
  cases hr
  exact hnext

theorem mem_pass_of_ascending {job : ι} (hcs : Ascending (.pass now :: cs)) :
    (h, job) ∈ ((after cs).pass now).2 ↔ ∃ e r, (after cs).entries.get? h = some e ∧
      e.job = job ∧ since? h cs = some r ∧
      ∃ t, e.schedule.pattern.Matches t ∧ r < t ∧ t ≤ now := by
  rw [mem_pass_iff]
  have hrest : Ascending cs := hcs.of_cons
  constructor
  · rintro ⟨e, hget, hdue, hjob⟩
    obtain ⟨r, hr, -, hsearch, hnext⟩ := current hrest hget
    exact ⟨e, r, hget, hjob, hr, (due_iff (ordered hget) hsearch hnext).1 hdue⟩
  · rintro ⟨e, r, hget, hjob, hr, hmatch⟩
    obtain ⟨r', hr', -, hsearch, hnext⟩ := current hrest hget
    rw [hr] at hr'
    cases hr'
    exact ⟨e, hget, (due_iff (ordered hget) hsearch hnext).2 hmatch, hjob⟩

theorem not_mem_pass_of_unregistered (hlive : (after cs).entries.contains h = true)
    (more : List (Call ι)) (job : ι) :
    (h, job) ∉ ((after (more ++ .unregister h :: cs)).pass now).2 := by
  obtain ⟨e, hget⟩ := (Table.contains_iff ..).1 hlive
  have hle : h.number ≤ (after (.unregister h :: cs)).lastNumber :=
    (number_le hget).trans (lastNumber_le_call _ _)
  have hnone : (after (.unregister h :: cs)).entries.get? h = none := by
    simp [after, call, get?_unregister]
  rw [mem_pass_iff]
  rintro ⟨e', hget', -⟩
  rw [(absent_stays hle hnone more).2] at hget'
  cases hget'

/-- A registration gives an entry a fire time to come. A pass fires each entry that had a fire time
since it was last looked at, once, and leaves all entries and the time to wake up to date, if the
clock was not set back. An entry that is removed is never fired again. However the clock moves, the
due time of an entry stays until the entry is fired and moves ahead then, so that no fire time is
used twice. -/
theorem fires_what_is_due (cs : List (Call ι)) :
    (∀ now expression job h l', (after cs).register now expression job = (l', .ok h) →
      ∃ e u, l'.entries.get? h = some e ∧ e.job = job ∧ e.next? = some u ∧ now < u) ∧
    (∀ now, Ascending (.pass now :: cs) →
      (((after cs).pass now).2.map Prod.fst).Nodup ∧
      (∀ h job, (h, job) ∈ ((after cs).pass now).2 ↔
        ∃ e r, (after cs).entries.get? h = some e ∧ e.job = job ∧ since? h cs = some r ∧
          ∃ t, e.schedule.pattern.Matches t ∧ r < t ∧ t ≤ now) ∧
      (∀ h e, (after (.pass now :: cs)).entries.get? h = some e →
        e.next? = e.schedule.pattern.next? now) ∧
      ∃ wake?, (after (.pass now :: cs)).phase = .collected now wake? ∧
        (∀ w, wake? = some w → IsLeast {u | ∃ h, (after (.pass now :: cs)).next? h = some u} w) ∧
        (wake? = none ↔ ∀ h, (after (.pass now :: cs)).next? h = none)) ∧
    (∀ h, (after cs).entries.contains h = true → ∀ more now job,
      (h, job) ∉ ((after (more ++ .unregister h :: cs)).pass now).2) ∧
    ∀ h, (dispatched h cs).Pairwise (fun later earlier => earlier < later) ∧
      ∀ u, (after cs).next? h = some u → ∀ more v, (after (more ++ cs)).next? h = some v →
        (u = v ∧ dispatched h (more ++ cs) = dispatched h cs) ∨ u < v := by
  refine ⟨fun _ _ _ _ _ hr => next?_register hr, ?_,
    fun _ hlive more now job => not_mem_pass_of_unregistered hlive more job,
    fun h => ⟨(dispatched_descending h cs).1, fun u hu more v hv => next?_append hu more hv⟩⟩
  intro now hcs
  exact ⟨nodup_pass _ _, fun _ _ => mem_pass_of_ascending hcs, fun _ _ => next?_pass hcs,
    wake_pass _ _⟩

/-- An hourly entry that missed one of two fire times is fired once. -/
theorem fires_what_is_due_once : ∃ (cs : List (Call Unit)) (now : Instant),
    Ascending (.pass now :: cs) ∧ ((after cs).pass now).2 = [(⟨1⟩, ())] ∧
      ∃ e r, (after cs).entries.get? ⟨1⟩ = some e ∧ since? ⟨1⟩ cs = some r ∧
        ∃ t, e.schedule.pattern.Matches t ∧ r < t ∧ t ≤ now := by
  let now : Instant := ⟨9000, 0, by decide, by decide, by decide⟩
  let cs : List (Call Unit) := [.register default "0 0 * * * *" ()]
  have hcs : Ascending (.pass now :: cs) := by
    unfold Ascending
    decide
  have hdue : ((after cs).pass now).2 = [(⟨1⟩, ())] := by decide +kernel
  obtain ⟨-, hpass, -⟩ := fires_what_is_due cs
  have hmem : (⟨1⟩, ()) ∈ ((after cs).pass now).2 := by
    rw [hdue]
    exact List.mem_singleton_self _
  obtain ⟨e, r, hget, -, hr, hmatch⟩ := ((hpass now hcs).2.1 ⟨1⟩ ()).1 hmem
  exact ⟨cs, now, hcs, hdue, e, r, hget, hr, hmatch⟩

end Loop

end Snapshots.Timer
