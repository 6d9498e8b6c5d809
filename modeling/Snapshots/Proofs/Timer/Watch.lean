import Snapshots.Proofs.Timer.Current
import Snapshots.Proofs.Timer.Registry

/-! # A timer that is watched

A timer that makes a pass at every second fires an entry at exactly the fire times of its schedule,
if the entry was up to date at the start. An entry is up to date if no reading of the clock was
later than now and the entry is not due now.
-/

namespace Snapshots.Timer

open Cron Time

def Next (t u : Instant) : Prop :=
  u.nanos = 0 ∧ u.seconds = t.seconds + 1

/-- The first so many whole seconds after an instant. -/
def secondsAfter : Nat → Instant → List Instant
  | 0, _ => []
  | count + 1, t =>
    match Instant.ofParts? (t.seconds + 1) 0 with
    | some u => u :: secondsAfter count u
    | none => []

/-- The whole seconds after the first instant, and not after the second. -/
def wholeSeconds (start stop : Instant) : List Instant :=
  secondsAfter (stop.seconds - start.seconds).toNat start

section Seconds

variable {t u v start stop : Instant} {count : Nat}

theorem Next.lt (h : Next t u) : t < u :=
  (Pattern.lt_iff_of_nanos h.1).2 h.2.ge

theorem Next.eq_of_le (h : Next t u) (hv : v.nanos = 0) (hlt : t < v) (hle : v ≤ u) : v = u := by
  rw [Pattern.lt_iff_of_nanos hv] at hlt
  rw [Instant.le_iff, Instant.lt_iff] at hle
  refine Instant.eq_of_parts ?_ (hv.trans h.1.symm)
  have := h.2
  omega

theorem secondsAfter_chain (count : Nat) (t : Instant) :
    (t :: secondsAfter count t).IsChain Next := by
  induction count generalizing t with
  | zero => exact .singleton t
  | succ count ih =>
    unfold secondsAfter
    split
    · rename_i u hu
      obtain ⟨hs, hn⟩ := Instant.ofParts?_eq_some_iff.1 hu
      exact .cons_cons ⟨hn, hs⟩ (ih u)
    · exact .singleton t

theorem mem_secondsAfter_iff : v ∈ secondsAfter count t ↔
    v.nanos = 0 ∧ t.seconds < v.seconds ∧ v.seconds ≤ t.seconds + count := by
  induction count generalizing t with
  | zero =>
    simp only [secondsAfter, List.not_mem_nil, false_iff]
    omega
  | succ count ih =>
    unfold secondsAfter
    split
    · rename_i u hu
      obtain ⟨hs, hn⟩ := Instant.ofParts?_eq_some_iff.1 hu
      rw [List.mem_cons, ih, hs]
      constructor
      · rintro (rfl | ⟨hv, hlt, hle⟩)
        · omega
        · omega
      · rintro ⟨hv, hlt, hle⟩
        by_cases he : v.seconds = t.seconds + 1
        · exact .inl (Instant.eq_of_parts (he.trans hs.symm) (hv.trans hn.symm))
        · exact .inr ⟨hv, by omega, by omega⟩
    · rename_i hnone
      simp only [List.not_mem_nil, false_iff]
      rintro ⟨-, hlt, -⟩
      -- A second before one of the calendar, and after another, is of the calendar.
      have hrange : firstSecond ≤ t.seconds + 1 ∧ t.seconds + 1 ≤ lastSecond :=
        ⟨by have := t.inRange.1; omega, by have := v.inRange.2; omega⟩
      rw [Instant.ofParts?, dif_pos ⟨hrange, by decide, fun h => absurd h (by decide)⟩] at hnone
      cases hnone

theorem mem_wholeSeconds_iff :
    v ∈ wholeSeconds start stop ↔ v.nanos = 0 ∧ start < v ∧ v ≤ stop := by
  rw [wholeSeconds, mem_secondsAfter_iff]
  refine and_congr_right fun hv => ?_
  rw [Pattern.lt_iff_of_nanos hv, Instant.le_iff, Instant.lt_iff]
  omega

theorem nodup_wholeSeconds (start stop : Instant) : (wholeSeconds start stop).Nodup := by
  unfold wholeSeconds
  generalize (stop.seconds - start.seconds).toNat = count
  induction count generalizing start with
  | zero => exact .nil
  | succ count ih =>
    unfold secondsAfter
    split
    · rename_i u hu
      refine List.nodup_cons.2 ⟨fun hm => ?_, ih u⟩
      have := (mem_secondsAfter_iff.1 hm).2.1
      omega
    · exact .nil

end Seconds

namespace Loop

variable {ι : Type} {l : Loop ι} {n r now : Instant} {h : Handle} {job : ι}

/-- The entries that are fired by a pass at each of some instants. -/
def watch (l : Loop ι) : List Instant → List (Instant × Handle × ι)
  | [] => []
  | u :: us => (l.pass u).2.map (u, ·) ++ (l.pass u).1.watch us

theorem mem_of_mem_watch {us : List Instant} {x : Instant × Handle × ι} (hx : x ∈ l.watch us) :
    x.1 ∈ us := by
  induction us generalizing l with
  | nil => cases hx
  | cons u us ih =>
    rcases List.mem_append.1 hx with hx | hx
    · obtain ⟨_, -, rfl⟩ := List.mem_map.1 hx
      exact List.mem_cons_self
    · exact List.mem_cons_of_mem _ (ih hx)

theorem nodup_watch (l : Loop ι) {us : List Instant} (hus : us.Nodup) :
    ((l.watch us).map fun x => (x.1, x.2.1)).Nodup := by
  induction us generalizing l with
  | nil => exact .nil
  | cons u us ih =>
    obtain ⟨hu, hus⟩ := List.nodup_cons.1 hus
    rw [watch, List.map_append, List.nodup_append]
    refine ⟨?_, ih _ hus, ?_⟩
    · rw [List.map_map]
      exact .of_map Prod.snd (by simpa [Function.comp_def] using l.nodup_pass u)
    · intro a ha b hb hab
      obtain ⟨x, hx, rfl⟩ := List.mem_map.1 ha
      obtain ⟨y, hy, rfl⟩ := List.mem_map.1 hb
      obtain ⟨_, -, rfl⟩ := List.mem_map.1 hx
      have hyu : u = y.1 := congrArg Prod.fst hab
      exact hu (hyu ▸ mem_of_mem_watch hy)

/-- With a pass at every second, an entry that is up to date at the start is fired at the fire times
of its schedule. -/
theorem mem_watch_iff (hcurrent : ∀ {h e}, l.entries.get? h = some e → Entry.CurrentAt r e)
    {us : List Instant} (hus : (r :: us).IsChain Next) {u : Instant} :
    (u, h, job) ∈ l.watch us ↔
      u ∈ us ∧ ∃ e, l.entries.get? h = some e ∧ e.job = job ∧ e.schedule.pattern.Matches u := by
  induction us generalizing l r with
  | nil => simp [watch]
  | cons v us ih =>
    obtain ⟨hv, hus⟩ := List.isChain_cons_cons.1 hus
    have hdue : ∀ {h e}, l.entries.get? h = some e →
        (Entry.dueAt e v = true ↔ e.schedule.pattern.Matches v) := by
      intro h e he
      rw [(hcurrent he).dueAt_iff]
      constructor
      · rintro ⟨t, ht, hlt, hle⟩
        rwa [← hv.eq_of_le ht.1 hlt hle]
      · exact fun hm => ⟨v, hm, hv.lt, le_refl v⟩
    have hnext : ∀ {h e}, (l.pass v).1.entries.get? h = some e → Entry.CurrentAt v e := by
      intro h e he
      rw [get?_pass] at he
      obtain ⟨e₀, he₀, rfl⟩ := Option.map_eq_some_iff.1 he
      exact (hcurrent he₀).advance (le_of_lt hv.lt)
    have hentry : (∃ e, (l.pass v).1.entries.get? h = some e ∧ e.job = job ∧
          e.schedule.pattern.Matches u) ↔
        ∃ e, l.entries.get? h = some e ∧ e.job = job ∧ e.schedule.pattern.Matches u := by
      simp [get?_pass]
    rw [watch, List.mem_append, ih hnext hus, hentry, List.mem_cons, or_and_right]
    refine or_congr_left ?_
    simp only [List.mem_map, Prod.mk.injEq, exists_eq_right_right, mem_pass_iff]
    constructor
    · rintro ⟨⟨e, he, hd, hjob⟩, rfl⟩
      exact ⟨rfl, e, he, hjob, (hdue he).1 hd⟩
    · rintro ⟨rfl, e, he, hjob, hm⟩
      exact ⟨⟨e, he, (hdue he).2 hm, hjob⟩, rfl⟩

/-- No reading of the clock was later than an instant. -/
structure ReadBy (n : Instant) (l : Loop ι) : Prop where
  reading_le : ∀ {now}, l.phase = .read now → now ≤ n
  current : ∀ {h e}, l.entries.get? h = some e → ∃ r, r ≤ n ∧ Entry.CurrentAt r e

theorem Entry.CurrentAt.advance_cases {e : Entry ι} (hc : Entry.CurrentAt r e) (now : Instant) :
    Entry.CurrentAt r (Entry.advance now e) ∨ Entry.CurrentAt now (Entry.advance now e) := by
  by_cases hdue : Entry.dueAt e now = true
  · obtain ⟨t, -, hlt, hle⟩ := hc.dueAt_iff.1 hdue
    exact .inr (hc.advance (le_of_lt (lt_of_lt_of_le hlt hle)))
  · rw [advance_of_not_due hdue]
    exact .inl hc

namespace ReadBy

theorem new (n : Instant) : ReadBy n (.new : Loop ι) :=
  ⟨nofun, nofun⟩

theorem current_of_due_eq_nil {e : Entry ι} (hl : ReadBy n l) (hdue : l.due n = [])
    (he : l.entries.get? h = some e) : Entry.CurrentAt n e := by
  obtain ⟨r, hr, hc⟩ := hl.current he
  refine hc.of_not_due hr fun hd => ?_
  have hm : (h, e.job) ∈ l.due n := mem_pass_iff.2 ⟨e, he, hd, rfl⟩
  rw [hdue] at hm
  cases hm

theorem of_phase (hl : ReadBy n l) {l' : Loop ι} (hentries : l'.entries = l.entries)
    (hphase : ∀ {now}, l'.phase = .read now → l.phase = .read now) : ReadBy n l' :=
  ⟨fun h => hl.reading_le (hphase h), fun h => hl.current (hentries ▸ h)⟩

theorem notify (hl : ReadBy n l) : ReadBy n l.notify := by
  refine hl.of_phase l.entries_notify fun h => ?_
  unfold Loop.notify at h
  split at h
  · cases h
  · exact h

theorem start (hl : ReadBy n l) : ReadBy n l.start := by
  unfold Loop.start
  split
  · exact hl.of_phase rfl nofun
  · exact hl.of_phase rfl nofun
  · exact hl

theorem shutdown (hl : ReadBy n l) : ReadBy n l.shutdown := by
  unfold Loop.shutdown
  split
  · exact hl.of_phase rfl nofun
  · exact hl.of_phase rfl id

theorem park (hl : ReadBy n l) (monotonic : Nat) : ReadBy n (l.park monotonic) := by
  unfold Loop.park
  split
  · split
    · exact hl.of_phase rfl nofun
    · split
      · exact hl.of_phase rfl nofun
      · exact hl.of_phase rfl nofun
  · exact hl

theorem expire (hl : ReadBy n l) (monotonic : Nat) : ReadBy n (l.expire monotonic) := by
  unfold Loop.expire
  split
  · split
    · exact hl.of_phase rfl nofun
    · exact hl
  · exact hl

theorem register (hl : ReadBy n l) (hnow : now ≤ n) (expression : String) (job : ι) :
    ReadBy n (l.register now expression job).1 := by
  unfold Loop.register
  split
  · exact hl
  · rename_i schedule hp
    refine notify ⟨hl.reading_le, fun {h e} he => ?_⟩
    rcases Entry.currentAt_of_insert hp he with hc | he
    · exact ⟨now, hnow, hc⟩
    · exact hl.current he

theorem unregister (hl : ReadBy n l) (h : Handle) : ReadBy n (l.unregister h) := by
  unfold Loop.unregister
  split
  · refine notify ⟨hl.reading_le, fun {k e} he => ?_⟩
    have hget : (l.remove h).entries.get? k = if k = h then none else l.entries.get? k :=
      Table.get?_erase ..
    rw [hget] at he
    split at he
    · cases he
    · exact hl.current he
  · exact hl

theorem readClock (hl : ReadBy n l) (hnow : now ≤ n) : ReadBy n (l.readClock now) := by
  unfold Loop.readClock
  split
  · refine ⟨fun h => ?_, hl.current⟩
    cases h
    exact hnow
  · exact hl

theorem collect (hl : ReadBy n l) : ReadBy n l.collect.1 := by
  unfold Loop.collect
  split
  · rename_i now hphase
    refine ⟨nofun, fun he => ?_⟩
    rw [Table.get?_mapValues] at he
    obtain ⟨e₀, he₀, rfl⟩ := Option.map_eq_some_iff.1 he
    obtain ⟨r, hr, hc⟩ := hl.current he₀
    rcases hc.advance_cases now with hc | hc
    · exact ⟨r, hr, hc⟩
    · exact ⟨now, hl.reading_le hphase, hc⟩
  · exact hl

end ReadBy

end Loop

def Turn.reading? : Turn → Option Instant
  | readClock now => some now
  | _ => none

def Engine.ReadBy {ι : Type} (n : Instant) (e : Engine ι) : Prop :=
  ∃ l, e = .looping l ∧ l.ReadBy n

namespace Engine.ReadBy

variable {ι : Type} {e : Engine ι} {n now : Instant}

theorem register (he : e.ReadBy n) (hnow : now ≤ n) (expression : String) (job : ι) :
    (e.register now expression job).1.ReadBy n := by
  obtain ⟨l, rfl, hl⟩ := he
  exact ⟨_, rfl, hl.register hnow expression job⟩

theorem unregister (he : e.ReadBy n) (h : Handle) : (e.unregister h).ReadBy n := by
  obtain ⟨l, rfl, hl⟩ := he
  exact ⟨_, rfl, hl.unregister h⟩

theorem turn (he : e.ReadBy n) {t : Turn} (ht : ∀ now ∈ t.reading?, now ≤ n) :
    (e.turn t).ReadBy n := by
  obtain ⟨l, rfl, hl⟩ := he
  refine ⟨_, rfl, ?_⟩
  cases t with
  | setClock now => exact hl
  | setFaults rejecting failures => exact hl
  | startLoop => exact hl.start
  | shutdownLoop => exact hl.shutdown
  | readClock now => exact hl.readClock (ht now rfl)
  | collect => exact hl.collect
  | park monotonic => exact hl.park monotonic
  | expire monotonic => exact hl.expire monotonic

theorem unregisterIn (he : e.ReadBy n) (r : Registry) (id : String) :
    (r.unregister e id).2.ReadBy n := by
  unfold Registry.unregister
  split
  · exact he
  · exact he.unregister _

theorem registerIn (he : e.ReadBy n) (hnow : now ≤ n) (r : Registry) (id expression : String)
    (job : ι) : (r.register e now id expression job).2.1.ReadBy n := by
  have h := (he.unregisterIn r id).register hnow expression job
  rw [Registry.register_eq]
  split
  · rename_i heq
    rw [heq] at h
    exact h
  · rename_i heq
    rw [heq] at h
    exact h

end Engine.ReadBy

end Snapshots.Timer
