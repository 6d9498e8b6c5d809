import Mathlib.Order.Bounds.Basic
import Snapshots.Cron.Search
import Snapshots.Proofs.Time.Order
import Snapshots.Proofs.Time.Year

/-! # The first fire time

The search through the fields of a pattern finds the least of the seconds that the pattern allows,
and nothing only if there is none.
-/

namespace Snapshots.Cron

open Time

/-- The least of some values, or nothing if there are none. -/
def Finds {α : Type} [LE α] (found : Option α) (S : Set α) : Prop :=
  match found with
  | some a => IsLeast S a
  | none => S = ∅

namespace Finds

variable {α β : Type} [LE α] [LE β]

theorem congr {o : Option α} {S T : Set α} (h : Finds o S) (he : ∀ a, a ∈ S ↔ a ∈ T) :
    Finds o T :=
  Set.ext he ▸ h

theorem none_iff {S : Set α} : Finds none S ↔ ∀ a, a ∉ S :=
  Set.eq_empty_iff_forall_notMem

theorem orElse {o o' : Option α} {S T : Set α} (h : Finds o S) (h' : Finds o' T)
    (hle : ∀ a ∈ S, ∀ b ∈ T, a ≤ b) : Finds (o <|> o') (S ∪ T) := by
  cases o with
  | some a =>
    refine ⟨.inl h.1, ?_⟩
    rintro b (hb | hb)
    · exact h.2 hb
    · exact hle a h.1 b hb
  | none =>
    have hS : S = ∅ := h
    rw [hS, Set.empty_union]
    exact h'

theorem findSome? {l : List Nat} {f : Nat → Option α} {P : Nat → Set α}
    (hf : ∀ n ∈ l, Finds (f n) (P n))
    (hl : l.Pairwise fun m n => ∀ a ∈ P m, ∀ b ∈ P n, a ≤ b) :
    Finds (l.findSome? f) {a | ∃ n ∈ l, a ∈ P n} := by
  induction l with
  | nil => exact none_iff.2 (by simp)
  | cons n l ih =>
    obtain ⟨hn, hl⟩ := List.pairwise_cons.1 hl
    have hrest := ih (fun m hm => hf m (List.mem_cons_of_mem n hm)) hl
    have hcons : (n :: l).findSome? f = (f n <|> l.findSome? f) := by
      rw [List.findSome?_cons]
      cases f n <;> rfl
    rw [hcons]
    refine (orElse (hf n List.mem_cons_self) hrest ?_).congr fun a => ?_
    · rintro a ha b ⟨m, hm, hb⟩
      exact hn m hm a ha b hb
    · simp

theorem map {o : Option α} {S : Set α} (h : Finds o S) {f : α → β}
    (hf : ∀ a b, a ≤ b → f a ≤ f b) : Finds (o.map f) (f '' S) := by
  cases o with
  | some a =>
    refine ⟨⟨a, h.1, rfl⟩, ?_⟩
    rintro _ ⟨b, hb, rfl⟩
    exact hf a b (h.2 hb)
  | none =>
    have hS : S = ∅ := h
    rw [hS, Set.image_empty]
    rfl

/-- The least value of a part is the least of all if every value has one of the part before it. -/
theorem coinitial {γ : Type} [Preorder γ] {o : Option γ} {S T : Set γ} (h : Finds o S)
    (hsub : ∀ a ∈ S, a ∈ T) (hbelow : ∀ b ∈ T, ∃ a ∈ S, a ≤ b) : Finds o T := by
  cases o with
  | some a =>
    refine ⟨hsub a h.1, fun b hb => ?_⟩
    obtain ⟨c, hc, hle⟩ := hbelow b hb
    exact (h.2 hc).trans hle
  | none =>
    refine none_iff.2 fun b hb => ?_
    obtain ⟨a, ha, -⟩ := hbelow b hb
    exact none_iff.1 h a ha

theorem guard {o : Option α} {S : Set α} {c : Prop} [Decidable c] (h : ¬ c → Finds o S)
    (hc : c → S = ∅) : Finds (if c then none else o) S := by
  split
  · exact hc ‹_›
  · exact h ‹_›

end Finds

namespace Pattern

/-- The values of the clock ascend within their limits, and the years lie in 1970 to 2100. -/
structure Ordered (p : Pattern) : Prop where
  seconds : p.seconds.Pairwise (· < ·)
  minutes : p.minutes.Pairwise (· < ·)
  hours : p.hours.Pairwise (· < ·)
  second_lt : ∀ s ∈ p.seconds, s < 60
  minute_lt : ∀ m ∈ p.minutes, m < 60
  hour_lt : ∀ h ∈ p.hours, h < 24
  year_mem : ∀ y ∈ p.years, 1970 ≤ y ∧ y ≤ 2100

variable {p : Pattern}

theorem allowsSecond_iff (p : Pattern) (n : Nat) : p.allowsSecond n = true ↔
    n / 3600 ∈ p.hours ∧ n / 60 % 60 ∈ p.minutes ∧ n % 60 ∈ p.seconds := by
  simp [allowsSecond, and_assoc]

theorem Ordered.secondFrom?_finds (hp : p.Ordered) (low : Nat) :
    Finds (p.secondFrom? low) {n | low ≤ n ∧ p.allowsSecond n = true} := by
  have hfinds : Finds (p.secondFrom? low) {n | ∃ h ∈ p.hours, ∃ m ∈ p.minutes, ∃ s ∈ p.seconds,
      n = h * 3600 + m * 60 + s ∧ low ≤ n} := by
    refine Finds.findSome? (fun h _ => .guard (fun _ => ?_) fun hlow => ?_) ?_
    · refine Finds.findSome? (fun m _ => .guard (fun _ => ?_) fun hlow => ?_) ?_
      · refine Finds.findSome? (fun s _ => ?_) ?_
        · split
          · exact ⟨⟨rfl, ‹_›⟩, fun n hn => hn.1.ge⟩
          · refine Finds.none_iff.2 ?_
            rintro n ⟨rfl, hn⟩
            contradiction
        · refine hp.seconds.imp ?_
          rintro s s' hlt a ⟨rfl, -⟩ b ⟨rfl, -⟩
          omega
      · refine Finds.none_iff.2 ?_
        rintro n ⟨s, hs, rfl, hn⟩
        have := hp.second_lt s hs
        omega
      · refine hp.minutes.imp ?_
        rintro m m' hlt a ⟨s, hs, rfl, -⟩ b ⟨s', hs', rfl, -⟩
        have := hp.second_lt s hs
        omega
    · refine Finds.none_iff.2 ?_
      rintro n ⟨m, hm, s, hs, rfl, hn⟩
      have := hp.second_lt s hs
      have := hp.minute_lt m hm
      omega
    · refine hp.hours.imp ?_
      rintro h h' hlt a ⟨m, hm, s, hs, rfl, -⟩ b ⟨m', hm', s', hs', rfl, -⟩
      have := hp.second_lt s hs
      have := hp.minute_lt m hm
      omega
  refine hfinds.congr fun n => ?_
  constructor
  · rintro ⟨h, hh, m, hm, s, hs, rfl, hn⟩
    have hs60 := hp.second_lt s hs
    have hm60 := hp.minute_lt m hm
    refine ⟨hn, (p.allowsSecond_iff _).2 ⟨?_, ?_, ?_⟩⟩
    · rwa [show (h * 3600 + m * 60 + s) / 3600 = h by omega]
    · rwa [show (h * 3600 + m * 60 + s) / 60 % 60 = m by omega]
    · rwa [show (h * 3600 + m * 60 + s) % 60 = s by omega]
  · rintro ⟨hn, hallowed⟩
    obtain ⟨hh, hm, hs⟩ := (p.allowsSecond_iff n).1 hallowed
    exact ⟨_, hh, _, hm, _, hs, by omega, hn⟩

theorem dayFrom?_finds (p : Pattern) (count : Nat) (n : Int) :
    Finds (p.dayFrom? count n) {d | n ≤ d ∧ d < n + count ∧ p.allowsDay d = true} := by
  induction count generalizing n with
  | zero =>
    refine Finds.none_iff.2 ?_
    rintro d ⟨hlow, hhigh, -⟩
    omega
  | succ count ih =>
    simp only [dayFrom?]
    split
    · exact ⟨⟨le_refl n, by omega, ‹_›⟩, fun d hd => hd.1⟩
    · refine (ih (n + 1)).congr fun d => ?_
      constructor
      · rintro ⟨hlow, hhigh, hd⟩
        exact ⟨by omega, by omega, hd⟩
      · rintro ⟨hlow, hhigh, hd⟩
        have hne : n ≠ d := by
          rintro rfl
          contradiction
        exact ⟨by omega, by omega, hd⟩

/-- Whether the date and the time of a second from the epoch are allowed. -/
def AllowsAt (p : Pattern) (second : Int) : Prop :=
  p.allowsDay (second / secondsPerDay) = true ∧
    p.allowsSecond (second % secondsPerDay).toNat = true

theorem Ordered.day_mem (hp : p.Ordered) {d : Int} (h : p.allowsDay d = true) :
    0 ≤ d ∧ d ≤ lastDay := by
  simp only [allowsDay, Bool.and_eq_true, decide_eq_true_eq, List.contains_iff_mem] at h
  obtain ⟨-, hyear, hmem⟩ := h
  obtain ⟨hlow, hhigh⟩ := hp.year_mem _ hmem
  have hfirst := (Date.year_le_iff d 1970).1 (by omega)
  have hlast := (Date.year_le_iff d 2101).not.1 (by omega)
  simp only [Date.yearStart, lastDay] at *
  omega

theorem allowsAt_of_parts {d : Int} {n : Nat} (hd : p.allowsDay d = true)
    (hn : p.allowsSecond n = true) (hlt : n < secondsPerDay) :
    p.AllowsAt (d * secondsPerDay + n) := by
  have hday : (d * secondsPerDay + n) / secondsPerDay = d := by
    unfold secondsPerDay at *
    omega
  have hsecond : ((d * secondsPerDay + n) % secondsPerDay).toNat = n := by
    unfold secondsPerDay at *
    omega
  rw [AllowsAt, hday, hsecond]
  exact ⟨hd, hn⟩

theorem Ordered.secondOfDay_lt (hp : p.Ordered) {n : Nat} (h : p.allowsSecond n = true) :
    n < secondsPerDay := by
  have := hp.hour_lt _ ((p.allowsSecond_iff n).1 h).1
  unfold secondsPerDay
  omega

def onDay? (p : Pattern) (day : Int) (low : Nat) : Option Int :=
  (p.secondFrom? low).map fun n : Nat => day * secondsPerDay + n

theorem Ordered.onDay?_finds (hp : p.Ordered) {day : Int} (hday : p.allowsDay day = true)
    (low : Nat) :
    Finds (p.onDay? day low)
      {s | day * secondsPerDay + low ≤ s ∧ s < (day + 1) * secondsPerDay ∧ p.AllowsAt s} := by
  refine ((hp.secondFrom?_finds low).map fun a b hab => by omega).congr fun s => ?_
  constructor
  · rintro ⟨n, ⟨hlow, hn⟩, rfl⟩
    have hlt := hp.secondOfDay_lt hn
    refine ⟨?_, ?_, allowsAt_of_parts hday hn hlt⟩
    · exact Int.add_le_add_left (by omega) _
    · rw [Int.add_mul, Int.one_mul]
      exact Int.add_lt_add_left (by omega) _
  · rintro ⟨hlow, hhigh, -, hs⟩
    refine ⟨(s % secondsPerDay).toNat, ⟨?_, hs⟩, ?_⟩
    · unfold secondsPerDay at *
      omega
    · change day * secondsPerDay + ((s % secondsPerDay).toNat : Int) = s
      unfold secondsPerDay at *
      omega

theorem secondSince?_eq (p : Pattern) (start : Int) :
    p.secondSince? start =
      ((if ¬ p.allowsDay (start / secondsPerDay) = true then none
        else p.onDay? (start / secondsPerDay) (start % secondsPerDay).toNat) <|>
      (p.dayFrom? (lastDay + 1 - max 0 (start / secondsPerDay + 1)).toNat
        (max 0 (start / secondsPerDay + 1))).bind fun day => p.onDay? day 0) := by
  unfold secondSince?
  simp only [bind, onDay?, Option.map_eq_bind]
  split <;> rfl

theorem Ordered.laterDays_finds (hp : p.Ordered) (day : Int) :
    Finds ((p.dayFrom? (lastDay + 1 - max 0 (day + 1)).toNat (max 0 (day + 1))).bind fun d =>
        p.onDay? d 0)
      {s | (day + 1) * secondsPerDay ≤ s ∧ p.AllowsAt s} := by
  have hfirst := p.dayFrom?_finds (lastDay + 1 - max 0 (day + 1)).toNat (max 0 (day + 1))
  have hdays : ∀ s, (day + 1) * secondsPerDay ≤ s → p.AllowsAt s →
      max 0 (day + 1) ≤ s / secondsPerDay ∧
        s / secondsPerDay < max 0 (day + 1) + (lastDay + 1 - max 0 (day + 1)).toNat := by
    intro s hs ha
    obtain ⟨hlow, hhigh⟩ := hp.day_mem ha.1
    unfold secondsPerDay at *
    omega
  cases hd : p.dayFrom? (lastDay + 1 - max 0 (day + 1)).toNat (max 0 (day + 1)) with
  | none =>
    rw [hd] at hfirst
    refine Finds.none_iff.2 ?_
    rintro s ⟨hs, ha⟩
    exact Finds.none_iff.1 hfirst _ ⟨(hdays s hs ha).1, (hdays s hs ha).2, ha.1⟩
  | some d =>
    rw [hd] at hfirst
    obtain ⟨⟨hlow, -, hallowed⟩, hleast⟩ := hfirst
    rw [Option.bind_some]
    refine (hp.onDay?_finds hallowed 0).coinitial ?_ ?_
    · rintro s ⟨hs, -, ha⟩
      refine ⟨?_, ha⟩
      unfold secondsPerDay at *
      omega
    · -- The same time of the first allowed day is not later.
      rintro s ⟨hs, ha⟩
      have hday : d ≤ s / secondsPerDay := hleast ⟨(hdays s hs ha).1, (hdays s hs ha).2, ha.1⟩
      have htime := hp.secondOfDay_lt ha.2
      refine ⟨d * secondsPerDay + (s % secondsPerDay).toNat,
        ⟨by omega, ?_, allowsAt_of_parts hallowed ha.2 htime⟩, ?_⟩
      all_goals
        unfold secondsPerDay at *
        omega

theorem Ordered.secondSince?_finds (hp : p.Ordered) (start : Int) :
    Finds (p.secondSince? start) {s | start ≤ s ∧ p.AllowsAt s} := by
  rw [secondSince?_eq]
  have hstart : start = start / secondsPerDay * secondsPerDay + (start % secondsPerDay).toNat := by
    unfold secondsPerDay
    omega
  refine (Finds.orElse (S := {s | start ≤ s ∧ s < (start / secondsPerDay + 1) * secondsPerDay ∧
    p.AllowsAt s}) (.guard (fun hday => ?_) fun hday => ?_)
    (hp.laterDays_finds (start / secondsPerDay)) ?_).congr fun s => ?_
  · refine (hp.onDay?_finds (not_not.1 hday) _).congr fun s => ?_
    rw [← hstart]
  · refine Finds.none_iff.2 ?_
    rintro s ⟨hlow, hhigh, ha⟩
    have : s / secondsPerDay = start / secondsPerDay := by
      unfold secondsPerDay at *
      omega
    exact hday (this ▸ ha.1)
  · rintro a ⟨-, ha, -⟩ b ⟨hb, -⟩
    omega
  · constructor
    · rintro (⟨hs, -, ha⟩ | ⟨hs, ha⟩)
      · exact ⟨hs, ha⟩
      · refine ⟨?_, ha⟩
        unfold secondsPerDay at *
        omega
    · rintro ⟨hs, ha⟩
      by_cases hlt : s < (start / secondsPerDay + 1) * secondsPerDay
      · exact .inl ⟨hs, hlt, ha⟩
      · exact .inr ⟨by omega, ha⟩

theorem lt_iff_of_nanos {t u : Instant} (hu : u.nanos = 0) : t < u ↔ t.seconds + 1 ≤ u.seconds := by
  rw [Instant.lt_iff]
  omega

/-- The search is carried out only from the year zero on. -/
def Searchable (t : Instant) : Prop :=
  0 ≤ (Date.ofDayNumber ((t.seconds + 1) / secondsPerDay)).year

theorem searchable_iff (t : Instant) :
    Searchable t ↔ Date.yearStart 0 ≤ (t.seconds + 1) / secondsPerDay :=
  Date.year_le_iff ..

theorem Searchable.mono {t u : Instant} (h : Searchable t) (hle : t ≤ u) : Searchable u := by
  rw [searchable_iff] at *
  rw [Instant.le_iff, Instant.lt_iff] at hle
  unfold secondsPerDay at *
  omega

theorem searchable_of_year {t : Instant} (h : 0 ≤ t.date.year) : Searchable t := by
  have hday := (Date.year_le_iff t.dayNumber 0).1 h
  rw [searchable_iff]
  unfold Instant.dayNumber secondsPerDay at *
  omega

theorem next?_eq_bind {t : Instant} (h : Searchable t) :
    p.next? t = (p.secondSince? (t.seconds + 1)).bind fun s => Instant.ofParts? s 0 := by
  unfold next?
  rw [if_neg (not_lt.2 h)]
  rfl

theorem searchable_of_next? {t u : Instant} (h : p.next? t = some u) : Searchable t := by
  by_contra hn
  unfold next? at h
  rw [if_pos (not_le.1 hn)] at h
  cases h

/-- The next fire time is the least instant after the given one that matches. -/
theorem Ordered.next?_finds (hp : p.Ordered) {t : Instant} (ht : Searchable t) :
    Finds (p.next? t) {u | p.Matches u ∧ t < u} := by
  have hfinds := hp.secondSince?_finds (t.seconds + 1)
  rw [next?_eq_bind ht]
  cases hs : p.secondSince? (t.seconds + 1) with
  | none =>
    rw [hs] at hfinds
    refine Finds.none_iff.2 ?_
    rintro u ⟨⟨hu, ha⟩, hlt⟩
    exact Finds.none_iff.1 hfinds u.seconds ⟨(lt_iff_of_nanos hu).1 hlt, ha⟩
  | some s =>
    rw [hs] at hfinds
    obtain ⟨⟨hlow, ha⟩, hleast⟩ := hfinds
    obtain ⟨u, hu⟩ : ∃ u : Instant, Instant.ofParts? s 0 = some u := by
      have hday := hp.day_mem ha.1
      unfold lastDay secondsPerDay at hday
      refine ⟨⟨s, 0, ?_, by decide, fun h => absurd h (by decide)⟩,
        Instant.ofParts?_eq_some_iff.2 ⟨rfl, rfl⟩⟩
      unfold firstSecond lastSecond
      omega
    obtain ⟨rfl, hu0⟩ := Instant.ofParts?_eq_some_iff.1 hu
    rw [Option.bind_some, hu]
    refine ⟨⟨⟨hu0, ha⟩, (lt_iff_of_nanos hu0).2 hlow⟩, ?_⟩
    rintro v ⟨⟨hv, hva⟩, hlt⟩
    have hle : u.seconds ≤ v.seconds := hleast ⟨(lt_iff_of_nanos hv).1 hlt, hva⟩
    rw [Instant.le_iff, Instant.lt_iff]
    omega

variable {t u : Instant}

theorem Ordered.next?_eq_some (hp : p.Ordered) (h : p.next? t = some u) :
    p.Matches u ∧ t < u ∧ ∀ v, p.Matches v → t < v → u ≤ v := by
  have hfinds := hp.next?_finds (searchable_of_next? h)
  rw [h] at hfinds
  exact ⟨hfinds.1.1, hfinds.1.2, fun v hv hlt => hfinds.2 ⟨hv, hlt⟩⟩

theorem Ordered.next?_eq_none_iff (hp : p.Ordered) (ht : Searchable t) :
    p.next? t = none ↔ ∀ v, p.Matches v → ¬ t < v := by
  have hfinds := hp.next?_finds ht
  cases hn : p.next? t with
  | none =>
    rw [hn] at hfinds
    exact iff_of_true rfl fun v hv hlt => Finds.none_iff.1 hfinds v ⟨hv, hlt⟩
  | some u =>
    obtain ⟨hu, hlt, -⟩ := hp.next?_eq_some hn
    exact iff_of_false (by simp) fun h => h u hu hlt

theorem Ordered.next?_eq_of_le (hp : p.Ordered) (ht : Searchable t) (hle : t ≤ u)
    (hnone : ∀ v, p.Matches v → t < v → u < v) : p.next? u = p.next? t := by
  cases hn : p.next? t with
  | none =>
    refine (hp.next?_eq_none_iff (ht.mono hle)).2 fun v hv hlt => ?_
    exact (hp.next?_eq_none_iff ht).1 hn v hv (lt_of_le_of_lt hle hlt)
  | some v =>
    obtain ⟨hv, htv, hleast⟩ := hp.next?_eq_some hn
    cases hm : p.next? u with
    | none => exact absurd (hnone v hv htv) ((hp.next?_eq_none_iff (ht.mono hle)).1 hm v hv)
    | some w =>
      obtain ⟨hw, huw, hleast'⟩ := hp.next?_eq_some hm
      have hvw := hleast w hw (lt_of_le_of_lt hle huw)
      have hwv := hleast' v hv (hnone v hv htv)
      rw [le_antisymm hwv hvw]

theorem Ordered.mem_betweenGo_iff (hp : p.Ordered) {stop v : Instant} {count : Nat}
    (ht : Searchable t) (hcount : (stop.seconds - t.seconds).toNat ≤ count) :
    v ∈ between.go p stop count t ↔ p.Matches v ∧ t < v ∧ v ≤ stop := by
  induction count generalizing t with
  | zero =>
    refine iff_of_false (by simp [between.go]) ?_
    rintro ⟨hv, hlt, hle⟩
    rw [lt_iff_of_nanos hv.1] at hlt
    rw [Instant.le_iff, Instant.lt_iff] at hle
    omega
  | succ count ih =>
    simp only [between.go]
    cases hn : p.next? t with
    | none =>
      refine iff_of_false (by simp) ?_
      rintro ⟨hv, hlt, -⟩
      exact (hp.next?_eq_none_iff ht).1 hn v hv hlt
    | some u =>
      obtain ⟨hu, htu, hleast⟩ := hp.next?_eq_some hn
      have hseconds := (lt_iff_of_nanos hu.1).1 htu
      have hrest := @ih u (ht.mono (le_of_lt htu)) (by omega)
      dsimp only
      split
      · rename_i hle
        rw [List.mem_cons, hrest]
        constructor
        · rintro (rfl | ⟨hv, hlt, hle'⟩)
          · exact ⟨hu, htu, hle⟩
          · exact ⟨hv, lt_trans htu hlt, hle'⟩
        · rintro ⟨hv, hlt, hle'⟩
          rcases lt_trichotomy u v with huv | rfl | hvu
          · exact .inr ⟨hv, huv, hle'⟩
          · exact .inl rfl
          · exact absurd hvu (hleast v hv hlt)
      · rename_i hle
        refine iff_of_false (by simp) ?_
        rintro ⟨hv, hlt, hle'⟩
        exact hle (le_trans (hleast v hv hlt) hle')

theorem Ordered.mem_between_iff (hp : p.Ordered) (ht : Searchable t) (stop v : Instant) :
    v ∈ p.between t stop ↔ p.Matches v ∧ t < v ∧ v ≤ stop :=
  hp.mem_betweenGo_iff ht le_rfl

theorem Ordered.betweenGo_pairwise (hp : p.Ordered) {stop : Instant} {count : Nat} :
    (between.go p stop count t).Pairwise (· < ·) ∧ ∀ v ∈ between.go p stop count t, t < v := by
  induction count generalizing t with
  | zero => simp [between.go]
  | succ count ih =>
    simp only [between.go]
    cases hn : p.next? t with
    | none => simp
    | some u =>
      obtain ⟨-, htu, -⟩ := hp.next?_eq_some hn
      obtain ⟨hpair, hlt⟩ := @ih u
      dsimp only
      split
      · refine ⟨List.pairwise_cons.2 ⟨hlt, hpair⟩, ?_⟩
        rintro v hv
        rcases List.mem_cons.1 hv with rfl | hv
        · exact htu
        · exact lt_trans htu (hlt v hv)
      · simp

theorem Ordered.between_pairwise (hp : p.Ordered) (t stop : Instant) :
    (p.between t stop).Pairwise (· < ·) :=
  hp.betweenGo_pairwise.1

end Pattern

end Snapshots.Cron
