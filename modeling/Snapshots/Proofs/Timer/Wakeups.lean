import Snapshots.Proofs.Time.Span
import Snapshots.Proofs.Timer.Calls

/-! # No registration is slept through

A registration and a removal change the entries first and tell the loop of it afterwards, and the
loop may go on in between. A loop that is parked was told of every entry that is due before it
wakes, unless a registration is still about to tell it.
-/

namespace Snapshots.Timer

open Cron Time

variable {ι : Type}

/-- A timer with the registrations and removals that have yet to tell the loop. -/
structure World (ι : Type) where
  loop : Loop ι
  registering : Nat
  unregistering : Nat

namespace World

inductive Step : World ι → World ι → Prop

  | insert {w now expression schedule} (job : ι) :
      Schedule.parse now expression = .ok schedule →
      Step w ⟨w.loop.insert now schedule job, w.registering + 1, w.unregistering⟩

  | registered {w n} : w.registering = n + 1 → Step w ⟨w.loop.notify, n, w.unregistering⟩

  | remove {w h} : w.loop.entries.contains h = true →
      Step w ⟨w.loop.remove h, w.registering, w.unregistering + 1⟩

  | unregistered {w n} : w.unregistering = n + 1 → Step w ⟨w.loop.notify, w.registering, n⟩

  | start (w) : Step w { w with loop := w.loop.start }

  | readClock (w now) : Step w { w with loop := w.loop.readClock now }

  | collect (w) : Step w { w with loop := w.loop.collect.1 }

  | park (w monotonic) : Step w { w with loop := w.loop.park monotonic }

  | expire (w monotonic) : Step w { w with loop := w.loop.expire monotonic }

  | shutdown (w) : Step w { w with loop := w.loop.shutdown }

inductive Reachable : World ι → Prop

  | new : Reachable ⟨.new, 0, 0⟩

  | step {w w'} : Reachable w → Step w w' → Reachable w'

/-- The time to wake up that the loop found in its last pass, as long as it keeps to it. -/
inductive WakesAt (wake? : Option Instant) : Phase → Prop

  | collected (now) : WakesAt wake? (.collected now wake?)

  | parked (now deadline) : WakesAt wake? (.parked now wake? deadline)

/-- No entry is due before the time to wake up. -/
def Covers (wake? : Option Instant) (l : Loop ι) : Prop :=
  ∀ h u, l.next? h = some u → ∃ d, wake? = some d ∧ d ≤ u

/-- Unless the loop wakes in time for all entries, it will look at them again before it parks, or
is about to be told. -/
structure Watched (w : World ι) : Prop where
  covered : ∀ {wake?}, WakesAt wake? w.loop.phase →
    Covers wake? w.loop ∨ w.loop.permit = true ∨ 0 < w.registering
  permit : ∀ {now wake? deadline}, w.loop.phase = .parked now wake? deadline →
    w.loop.permit = false

theorem Watched.of_phase {w : World ι} (h : ∀ {wake?}, ¬ WakesAt wake? w.loop.phase) :
    w.Watched := by
  refine ⟨fun hw => absurd hw h, fun hp => ?_⟩
  rw [hp] at h
  exact absurd (.parked ..) h

theorem watched_notify (l : Loop ι) (registering unregistering : Nat) :
    Watched ⟨l.notify, registering, unregistering⟩ := by
  unfold Loop.notify
  split
  · exact .of_phase (by rintro _ ⟨⟩)
  · rename_i hphase
    exact ⟨fun _ => .inr (.inl rfl), fun hp => absurd hp (hphase _ _ _)⟩

theorem covers_remove {wake? : Option Instant} {l : Loop ι} (h : Covers wake? l) (k : Handle) :
    Covers wake? (l.remove k) := by
  intro h' u hu
  obtain ⟨e, hget, hnext⟩ := Loop.next?_eq_some_iff.1 hu
  refine h h' u (Loop.next?_eq_some_iff.2 ⟨e, ?_, hnext⟩)
  have hget : (l.entries.erase k).get? h' = some e := hget
  rw [Table.get?_erase] at hget
  split at hget
  · cases hget
  · exact hget

theorem covers_earliest (l : Loop ι) : Covers (Loop.earliest? l.entries) l := by
  intro h u hu
  have hfinds := Loop.earliest?_finds l
  generalize Loop.earliest? l.entries = wake? at hfinds
  cases wake? with
  | none => exact absurd ⟨h, hu⟩ (Finds.none_iff.1 hfinds u)
  | some d => exact ⟨d, rfl, hfinds.2 ⟨h, hu⟩⟩

theorem Watched.step {w w' : World ι} (hw : w.Watched) (h : Step w w') : w'.Watched := by
  cases h with
  | insert job hp => exact ⟨fun _ => .inr (.inr (Nat.succ_pos _)), hw.permit⟩
  | registered => exact watched_notify ..
  | unregistered => exact watched_notify ..
  | remove hlive =>
    refine ⟨fun hwakes => ?_, hw.permit⟩
    rcases hw.covered hwakes with hcovers | hlater
    · exact .inl (covers_remove hcovers _)
    · exact .inr hlater
  | start =>
    unfold Loop.start
    split
    · exact .of_phase (by rintro _ ⟨⟩)
    · exact .of_phase (by rintro _ ⟨⟩)
    · exact hw
  | readClock now =>
    unfold Loop.readClock
    split
    · exact .of_phase (by rintro _ ⟨⟩)
    · exact hw
  | collect =>
    unfold Loop.collect
    split
    · refine ⟨?_, by simp⟩
      rintro _ ⟨⟩
      exact .inl (covers_earliest _)
    · exact hw
  | park monotonic =>
    unfold Loop.park
    split
    · rename_i now wake? hphase
      split
      · exact .of_phase (by rintro _ ⟨⟩)
      · split
        · exact .of_phase (by rintro _ ⟨⟩)
        · rename_i hpermit
          -- What covered the entries when they were collected still does.
          refine ⟨?_, fun _ => by simpa using hpermit⟩
          rintro _ ⟨⟩
          exact hw.covered (hphase ▸ .collected now)
    · exact hw
  | expire monotonic =>
    unfold Loop.expire
    split
    · split
      · exact .of_phase (by rintro _ ⟨⟩)
      · exact hw
    · exact hw
  | shutdown =>
    unfold Loop.shutdown
    split
    · exact .of_phase (by rintro _ ⟨⟩)
    · exact ⟨hw.covered, hw.permit⟩

theorem Reachable.watched {w : World ι} (h : Reachable w) : w.Watched := by
  induction h with
  | new => exact .of_phase (by rintro _ ⟨⟩)
  | step _ hstep ih => exact ih.step hstep

/-- When a parked loop wakes by itself: an hour after it read the clock if no entry is due. -/
def wakeInstant? (now : Instant) : Option Instant → Option Instant
  | some wake => some wake
  | none => now.addHours? 1

theorem parkNanos_eq {now d : Instant} {wake? : Option Instant} (hnow : now.nanos < nanosPerSecond)
    (hd : wakeInstant? now wake? = some d) : Loop.parkNanos now wake? = now.nanosUntil d := by
  cases wake? with
  | some wake =>
    cases hd
    rfl
  | none => exact (Instant.nanosUntil_of_addHours? hnow hd).symm

/-- The deadline of a loop that parks is this instant on the monotonic clock: when both clocks have
gone on, the loop wakes exactly if the clock of the calendar has come to it. -/
theorem phase_expire_park {l : Loop ι} {now now' d : Instant} {wake? : Option Instant}
    {monotonic elapsed : Nat} (hphase : l.phase = .collected now wake?)
    (hstopping : l.stopping = false) (hpermit : l.permit = false)
    (hd : wakeInstant? now wake? = some d) (hnow : now.nanos < nanosPerSecond)
    (hwhole : d.nanos < nanosPerSecond) (hclock : now.addNanos? elapsed = some now') :
    ((l.park monotonic).expire (monotonic + elapsed)).phase = .awake ↔ d ≤ now' := by
  have hpark : l.park monotonic =
      { l with phase := .parked now wake? (monotonic + Loop.parkNanos now wake?) } := by
    simp only [Loop.park, hphase, hstopping, hpermit, Bool.false_eq_true, if_false]
  rw [← Instant.nanosUntil_le_iff hnow hwhole hclock, ← parkNanos_eq hnow hd, hpark]
  simp only [Loop.expire, Nat.add_le_add_iff_left]
  split
  · exact iff_of_true rfl ‹_›
  · exact iff_of_false (by simp) ‹_›

/-- A parked loop that has no permit and is not about to be told of a registration wakes no later
than any entry is due. An entry that is due sooner is one of a registration that is still about to
tell the loop, and wakes it then. -/
theorem Reachable.parked_wakes_in_time {w : World ι} {now : Instant} {wake? : Option Instant}
    {deadline : Nat} (hw : Reachable w) (hphase : w.loop.phase = .parked now wake? deadline) :
    (w.loop.permit = false → w.registering = 0 →
      (∀ d, wakeInstant? now wake? = some d → ∀ h u, w.loop.next? h = some u → d ≤ u) ∧
        (wake? = none → ∀ h, w.loop.next? h = none)) ∧
      ∀ h u, w.loop.next? h = some u → (∀ d, wake? = some d → u < d) →
        0 < w.registering ∧ w.loop.notify.phase = .awake := by
  have hwakes : WakesAt wake? w.loop.phase := hphase ▸ .parked now deadline
  have hpermit := hw.watched.permit hphase
  constructor
  · intro _ hregistering
    have hcovers : Covers wake? w.loop := by
      rcases hw.watched.covered hwakes with hcovers | hset | hpos
      · exact hcovers
      · rw [hpermit] at hset
        cases hset
      · omega
    constructor
    · intro d hd h u hu
      obtain ⟨d', rfl, hle⟩ := hcovers h u hu
      cases hd
      exact hle
    · rintro rfl h
      refine Option.eq_none_iff_forall_ne_some.2 fun u hu => ?_
      obtain ⟨d, hd, -⟩ := hcovers h u hu
      cases hd
  · intro h u hu hsooner
    constructor
    · rcases hw.watched.covered hwakes with hcovers | hset | hpos
      · obtain ⟨d, hd, hle⟩ := hcovers h u hu
        exact absurd (hsooner d hd) hle
      · rw [hpermit] at hset
        cases hset
      · exact hpos
    · rw [Loop.notify, hphase]

namespace Sample

def hourly : Schedule :=
  ⟨"0 0 * * * *", [0], [0], List.range 24, List.range' 1 31, List.range' 1 12, List.range' 1 7,
    Grammar.allYears⟩

def passed : Loop Unit :=
  (((Loop.new.insert default hourly ()).notify.start.readClock default).collect.1).park 0

/-- The timer after its second pass, as the permit kept it from parking after the first. -/
def parked : Loop Unit :=
  ((passed.readClock default).collect.1).park 0

theorem reachable_parked : Reachable ⟨parked, 0, 0⟩ := by
  have hsome : (Schedule.parse default "0 0 * * * *").toOption = some hourly := by
    decide +kernel
  have hparse : Schedule.parse default "0 0 * * * *" = .ok hourly := by
    cases hp : Schedule.parse default "0 0 * * * *" with
    | error e =>
      rw [hp] at hsome
      cases hsome
    | ok s =>
      rw [hp] at hsome
      exact congrArg Except.ok (Option.some.inj hsome)
  have hregistered : Reachable ⟨(Loop.new.insert default hourly ()).notify, 0, 0⟩ :=
    .step (.step .new (.insert () hparse)) (.registered rfl)
  have hpassed : Reachable ⟨passed, 0, 0⟩ :=
    .step (.step (.step (.step hregistered (.start _)) (.readClock _ default)) (.collect _))
      (.park _ 0)
  exact .step (.step (.step hpassed (.readClock _ default)) (.collect _)) (.park _ 0)

end Sample

theorem Reachable.parked_wakes_in_time_hourly : ∃ (w : World Unit) (d : Instant),
    Reachable w ∧ w.loop.phase = .parked default (some d) (3600 * nanosPerSecond) ∧
      w.loop.permit = false ∧ w.registering = 0 ∧ ∀ h u, w.loop.next? h = some u → d ≤ u := by
  let d : Instant := ⟨3600, 0, by decide, by decide, by decide⟩
  have hphase : Sample.parked.phase = .parked default (some d) (3600 * nanosPerSecond) := by
    decide +kernel
  have hpermit : Sample.parked.permit = false := by decide +kernel
  obtain ⟨hall, -⟩ := Reachable.parked_wakes_in_time Sample.reachable_parked hphase
  exact ⟨_, d, Sample.reachable_parked, hphase, hpermit, rfl, (hall hpermit rfl).1 d rfl⟩

end World

end Snapshots.Timer
