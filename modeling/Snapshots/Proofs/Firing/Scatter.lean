import Snapshots.Proofs.Cluster.Memory
import Snapshots.Proofs.Service.Calls

/-! # Firings on many clusters

The work of a firing on its clusters, in steps that come in any order. What the work on a cluster
comes to, and what becomes of its server, depends on how that cluster stood at the beginning and on
nothing else.
-/

namespace Snapshots.Firing

open Cluster Time

def settled (units : List (String × Progress Nat)) (c : String) : Bool :=
  units.any fun u => u.1 = c && u.2.result?.isSome

/-- The work on a cluster is where it can be, given how the cluster stood at the beginning. -/
def Progress.OnPath (m : Memory) (spec : Spec) (c : String) : Progress Nat → Prop
  | waiting => True
  | listing n => m.slots.get? c = some (.online n)
  | creating n => m.slots.get? c = some (.online n) ∧ ∀ s, m.servers[n]? = some s →
      s.failure = none ∧ (spec.ns, spec.sourceVolume) ∈ s.volumes
  | done r => r = (m.standing c).verdict c spec

/-- A firing under way, and what it has made of the fleet that it found. -/
structure Scattered (m₀ m : Memory) (spec : Spec) (units : List (String × Progress Nat)) :
    Prop where
  current_eq : m.current = m₀.current
  routes_eq : m.routes = m₀.routes
  slots_eq : m.slots = m₀.slots
  nodup : (units.map Prod.fst).Nodup
  onPath : ∀ c p, (c, p) ∈ units → p.OnPath m₀ spec c
  servers_eq : ∀ n, m.servers[n]? = (m₀.servers[n]?).map fun s =>
    if m₀.slots.get? s.name = some (.online n) ∧ settled units s.name = true then s.after spec
    else s

variable {m₀ m m' : Memory} {spec : Spec} {c : String} {p p' : Progress Nat}
  {l l' : List (String × Progress Nat)}

theorem settled_replace (hn : ((l ++ (c, p) :: l').map Prod.fst).Nodup) (p' : Progress Nat)
    (d : String) : settled (l ++ (c, p') :: l') d =
      if d = c then p'.result?.isSome else settled (l ++ (c, p) :: l') d := by
  simp only [List.map_append, List.map_cons, List.nodup_middle, List.nodup_cons,
    List.mem_append, not_or] at hn
  have hapart : ∀ k : List (String × Progress Nat), c ∉ k.map Prod.fst →
      k.any (fun u => u.1 = c && u.2.result?.isSome) = false := by
    intro k hk
    simp only [List.any_eq_false, Bool.and_eq_true, decide_eq_true_eq, not_and]
    exact fun u hu hc => absurd (List.mem_map.2 ⟨u, hu, hc⟩) hk
  by_cases hd : d = c
  · subst hd
    simp [settled, hapart l hn.1.1, hapart l' hn.1.2]
  · simp [settled, hd, Ne.symm hd]

/-- One unit of the work takes a step: the fleet changes for the server of its cluster at most, and
only when the unit is done. -/
theorem Scattered.replace (h : Scattered m₀ m spec (l ++ (c, p) :: l')) (hp : p.result? = none)
    (hpath : p'.OnPath m₀ spec c) (hcurrent : m'.current = m.current)
    (hroutes : m'.routes = m.routes) (hslots : m'.slots = m.slots)
    (hservers : ∀ n, m'.servers[n]? = (m.servers[n]?).map fun s =>
      if m₀.slots.get? c = some (.online n) ∧ p'.result?.isSome then s.after spec else s)
    (hsound : m₀.Sound) :
    Scattered m₀ m' spec (l ++ (c, p') :: l') where
  current_eq := hcurrent.trans h.current_eq
  routes_eq := hroutes.trans h.routes_eq
  slots_eq := hslots.trans h.slots_eq
  nodup := by simpa using h.nodup
  onPath d q hd := by
    rw [List.mem_append, List.mem_cons] at hd
    rcases hd with hd | hd | hd
    · exact h.onPath d q (List.mem_append_left _ hd)
    · cases hd
      exact hpath
    · exact h.onPath d q (List.mem_append_right _ (List.mem_cons_of_mem _ hd))
  servers_eq n := by
    rw [hservers, h.servers_eq, Option.map_map]
    cases hs : m₀.servers[n]? with
    | none => rfl
    | some s =>
      have hwaiting : settled (l ++ (c, p) :: l') c = false := by
        rw [settled_replace h.nodup, if_pos rfl, hp]
        rfl
      simp only [Option.map_some, Function.comp_apply, settled_replace h.nodup p']
      -- A number that the cluster leads to is that of the server of its name, and of no other.
      by_cases hc : m₀.slots.get? c = some (.online n)
      · obtain ⟨s', hs', hname⟩ := hsound hc
        rw [hs] at hs'
        cases hs'
        simp [hname, hc, hwaiting]
      · by_cases hname : s.name = c
        · simp [hname, hc]
        · simp [hname, hc]

/-- As long as the work on a cluster is not done, its server is as it was at the beginning. -/
theorem Scattered.server (h : Scattered m₀ m spec (l ++ (c, p) :: l')) (hp : p.result? = none)
    (hsound : m₀.Sound) {n : Nat} (hc : m₀.slots.get? c = some (.online n)) :
    ∃ s, m₀.servers[n]? = some s ∧ m.servers[n]? = some s ∧ s.name = c ∧
      m₀.standing c = .online s := by
  obtain ⟨s, hs, hname⟩ := hsound hc
  have hwaiting : settled (l ++ (c, p) :: l') c = false := by
    rw [settled_replace h.nodup, if_pos rfl, hp]
    rfl
  refine ⟨s, hs, ?_, hname, ?_⟩
  · rw [h.servers_eq, hs]
    simp [hname, hwaiting]
  · simp [Memory.standing, hc, hs]

theorem Scattered.advance (h : Scattered m₀ m spec (l ++ (c, p) :: l')) (hp : p.result? = none)
    (hsound : m₀.Sound) (hpath : p'.OnPath m₀ spec c)
    (hkept : p'.result?.isSome = true → ∀ n s, m₀.slots.get? c = some (.online n) →
      m.servers[n]? = some s → s.after spec = s) :
    Scattered m₀ m spec (l ++ (c, p') :: l') := by
  refine h.replace hp hpath rfl rfl rfl (fun n => ?_) hsound
  cases hs : m.servers[n]? with
  | none => rfl
  | some s =>
    rw [Option.map_some]
    split
    · rename_i hcond
      rw [hkept hcond.2 n s hcond.1 hs]
    · rfl

theorem Scattered.resolved (h : Scattered m₀ m spec (l ++ (c, .waiting) :: l'))
    (hsound : m₀.Sound) (hstep : Progress.waiting.step c spec m = (m', p')) :
    Scattered m₀ m' spec (l ++ (c, p') :: l') := by
  have hresolve : Fleet.resolve m c = m₀.resolve c := by
    change m.resolve c = m₀.resolve c
    rw [Memory.resolve, Memory.resolve, h.slots_eq]
  rcases m₀.resolve_cases c with ⟨n, hc, hr⟩ | ⟨e, hc, hr, hv⟩
  · simp only [Progress.step, hresolve, hr, Prod.mk.injEq] at hstep
    obtain ⟨rfl, rfl⟩ := hstep
    exact h.advance rfl hsound hc fun hdone => by cases hdone
  · simp only [Progress.step, hresolve, hr, Prod.mk.injEq] at hstep
    obtain ⟨rfl, rfl⟩ := hstep
    exact h.advance rfl hsound (hv spec).symm fun _ n s hn => absurd hn (hc n)

theorem afterListing_cases {s : Server} (hname : s.name = c) (spec : Spec) (n : Nat) :
    (∃ e, Progress.afterListing c spec n (s.answer spec.ns) = .done (.error e) ∧
      s.verdict spec = .error e) ∨
    (Progress.afterListing c spec n (s.answer spec.ns) = .creating n ∧ s.failure = none ∧
      (spec.ns, spec.sourceVolume) ∈ s.volumes) := by
  cases hf : s.failure with
  | some message => exact .inl ⟨.refused (.request s.name message), by simp [Server.answer, hf,
      Progress.afterListing], by simp [Server.verdict, hf]⟩
  | none =>
    obtain ⟨volumes, ha, hv⟩ := Server.any_answer hf spec.ns spec.sourceVolume
    rw [ha]
    by_cases hmem : (spec.ns, spec.sourceVolume) ∈ s.volumes
    · exact .inr ⟨if_pos (hv.2 hmem), rfl, hmem⟩
    · refine .inl ⟨_, if_neg (mt hv.1 hmem), ?_⟩
      simp [Server.verdict, hf, hmem, hname]

theorem Scattered.listed {n : Nat} (h : Scattered m₀ m spec (l ++ (c, .listing n) :: l'))
    (hsound : m₀.Sound) (hstep : (Progress.listing n).step c spec m = (m', p')) :
    Scattered m₀ m' spec (l ++ (c, p') :: l') := by
  have hc : m₀.slots.get? c = some (.online n) := h.onPath c (.listing n) (by simp)
  obtain ⟨s, hs₀, hs, hname, hstanding⟩ := h.server rfl hsound hc
  have hvolumes : Fleet.volumes? m n spec.ns =
      if s.held then none else some (s.answer spec.ns) := by
    change m.volumes? n spec.ns = _
    rw [Memory.volumes?, hs]
    rfl
  simp only [Progress.step, hvolumes, Prod.mk.injEq] at hstep
  obtain ⟨rfl, rfl⟩ := hstep
  -- A listing that is held back is asked for again in the next step.
  by_cases hheld : s.held = true
  · rw [if_pos hheld]
    exact h.advance rfl hsound hc fun hdone => by cases hdone
  · rw [if_neg hheld]
    rcases afterListing_cases hname spec n with ⟨e, ha, hv⟩ | ⟨ha, hf, hmem⟩
    · simp only [ha]
      refine h.advance rfl hsound ?_ fun _ n' s' hc' hs' => ?_
      · change _ = (m₀.standing c).verdict c spec
        rw [hstanding]
        exact hv.symm
      · rw [hc] at hc'
        cases hc'
        rw [hs] at hs'
        cases hs'
        exact Server.after_of_verdict hv
    · simp only [ha]
      refine h.advance rfl hsound ⟨hc, fun s' hs' => ?_⟩ fun hdone => by cases hdone
      rw [hs₀] at hs'
      cases hs'
      exact ⟨hf, hmem⟩

theorem Scattered.asked {n : Nat} (h : Scattered m₀ m spec (l ++ (c, .creating n) :: l'))
    (hsound : m₀.Sound) (hstep : (Progress.creating n).step c spec m = (m', p')) :
    Scattered m₀ m' spec (l ++ (c, p') :: l') := by
  obtain ⟨hc, hready⟩ := h.onPath c (.creating n) (by simp)
  obtain ⟨s, hs₀, hs, hname, hstanding⟩ := h.server rfl hsound hc
  obtain ⟨hf, hmem⟩ := hready s hs₀
  obtain ⟨hafter, hverdict⟩ := Server.create_of_mem_volumes hf hmem
  have hcreate : Fleet.create m n spec.ns spec =
      (m.modify n fun _ => s.after spec, (s.create spec.ns spec).2) := by
    change m.create n spec.ns spec = _
    rw [Memory.create, hs, ← hafter]
    rfl
  simp only [Progress.step, hcreate, Prod.mk.injEq] at hstep
  obtain ⟨rfl, rfl⟩ := hstep
  refine h.replace rfl ?_ rfl rfl rfl (fun k => ?_) hsound
  · change _ = (m₀.standing c).verdict c spec
    rw [hstanding]
    exact hverdict.symm
  · simp only [Memory.modify, List.getElem?_modify]
    by_cases hk : n = k
    · subst hk
      simp [hs, hc, Progress.result?]
    · simp [hk, hc]

theorem Scattered.step (h : Scattered m₀ m spec (l ++ (c, p) :: l')) (hsound : m₀.Sound)
    (hstep : p.step c spec m = (m', p')) : Scattered m₀ m' spec (l ++ (c, p') :: l') := by
  cases p with
  | waiting => exact h.resolved hsound hstep
  | listing n => exact h.listed hsound hstep
  | creating n => exact h.asked hsound hstep
  | done r =>
    cases hstep
    exact h

/-- How many steps of the work are done. -/
def Progress.rank {σ : Type} : Progress σ → Nat
  | waiting => 0
  | listing _ => 1
  | creating _ => 2
  | done _ => 3

theorem Progress.rank_le {σ : Type} (p : Progress σ) : p.rank ≤ 3 := by
  cases p <;> simp [rank]

theorem Progress.result?_isSome_iff {σ : Type} {p : Progress σ} :
    p.result?.isSome = true ↔ p.rank = 3 := by
  cases p <;> simp [rank, result?]

/-- Listings of a cluster are not held back. -/
def Free (m : Memory) (c : String) : Prop :=
  ∀ n s, m.slots.get? c = some (.online n) → m.servers[n]? = some s → s.held = false

theorem Scattered.rank_step (h : Scattered m₀ m spec (l ++ (c, p) :: l')) (hsound : m₀.Sound)
    (hfree : Free m₀ c) (hstep : p.step c spec m = (m', p')) : min 3 (p.rank + 1) ≤ p'.rank := by
  cases p with
  | waiting =>
    rw [← (Prod.mk.inj hstep).2]
    cases Fleet.resolve m c <;> simp [Progress.rank]
  | listing n =>
    have hc : m₀.slots.get? c = some (.online n) := h.onPath c (.listing n) (by simp)
    obtain ⟨s, hs₀, hs, hname, -⟩ := h.server rfl hsound hc
    have hvolumes : Fleet.volumes? m n spec.ns = some (s.answer spec.ns) := by
      change m.volumes? n spec.ns = _
      rw [Memory.volumes?, hs]
      exact if_neg (by simp [hfree n s hc hs₀])
    simp only [Progress.step, hvolumes, Prod.mk.injEq] at hstep
    rw [← hstep.2]
    rcases afterListing_cases hname spec n with ⟨e, ha, -⟩ | ⟨ha, -⟩
    · simp [ha, Progress.rank]
    · simp [ha, Progress.rank]
  | creating n =>
    cases hstep
    simp [Progress.rank]
  | done r =>
    cases hstep
    simp [Progress.rank]

section

variable {φ σ : Type} [Fleet φ σ]

theorem Flight.step_at (fleet : φ) (f : Flight σ) {l l' : List (String × Progress σ)} {c : String}
    {p : Progress σ} (h : f.units = l ++ (c, p) :: l') :
    f.step fleet l.length = ((p.step c f.spec fleet).1,
      { f with units := l ++ (c, (p.step c f.spec fleet).2) :: l' }) := by
  simp only [step, h, List.getElem?_append_right (Nat.le_refl _), Nat.sub_self,
    List.getElem?_cons_zero, List.set_append_right _ _ (Nat.le_refl _), List.set_cons_zero]

theorem Flight.step_cases (fleet : φ) (f : Flight σ) (i : Nat) :
    (f.units[i]? = none ∧ f.step fleet i = (fleet, f)) ∨
      ∃ l c p l', f.units = l ++ (c, p) :: l' ∧ l.length = i ∧
        f.step fleet i = ((p.step c f.spec fleet).1,
          { f with units := l ++ (c, (p.step c f.spec fleet).2) :: l' }) := by
  cases hu : f.units[i]? with
  | none => exact .inl ⟨rfl, by rw [step, hu]⟩
  | some u =>
    obtain ⟨c, p⟩ := u
    obtain ⟨hi, hget⟩ := List.getElem?_eq_some_iff.1 hu
    have hunits : f.units = f.units.take i ++ (c, p) :: f.units.drop (i + 1) := by
      rw [← hget, List.getElem_cons_drop, List.take_append_drop]
    have hlength : (f.units.take i).length = i := List.length_take_of_le (Nat.le_of_lt hi)
    have hstep := f.step_at fleet hunits
    rw [hlength] at hstep
    exact .inr ⟨_, c, p, _, hunits, hlength, hstep⟩

end

/-- A firing further on: of the same task, on the same clusters. -/
structure Flight.Onward {σ : Type} (f f' : Flight σ) : Prop where
  task_eq : f'.task = f.task
  firedAt_eq : f'.firedAt = f.firedAt
  clusters_eq : f'.units.map Prod.fst = f.units.map Prod.fst

variable {f f' : Flight Nat}

theorem Flight.Onward.spec_eq (h : f.Onward f') : f'.spec = f.spec := by
  simp only [Flight.spec, Flight.snapshotName, h.task_eq, h.firedAt_eq]

theorem Flight.Onward.length_eq (h : f.Onward f') : f'.units.length = f.units.length := by
  simpa using congrArg List.length h.clusters_eq

theorem Scattered.flight (h : Scattered m₀ m f.spec f.units) (hsound : m₀.Sound) {i : Nat}
    (hstep : f.step m i = (m', f')) : Scattered m₀ m' f'.spec f'.units ∧ f.Onward f' := by
  rcases f.step_cases m i with ⟨-, heq⟩ | ⟨l, c, p, l', hunits, -, heq⟩
  · cases heq.symm.trans hstep
    exact ⟨h, rfl, rfl, rfl⟩
  · cases heq.symm.trans hstep
    rw [hunits] at h
    exact ⟨h.step hsound rfl, rfl, rfl, by simp [hunits]⟩

theorem Scattered.run (hsound : m₀.Sound) (steps : List Nat)
    (h : Scattered m₀ m f.spec f.units)
    (hrun : Service.workThrough m f (steps.map .step) = (m', f')) :
    Scattered m₀ m' f'.spec f'.units ∧ f.Onward f' := by
  induction steps generalizing m f with
  | nil =>
    cases hrun
    exact ⟨h, rfl, rfl, rfl⟩
  | cons i steps ih =>
    cases hstep : f.step m i with
    | mk m₁ f₁ =>
      simp only [List.map_cons, Service.workThrough, hstep] at hrun
      obtain ⟨h₁, hon₁⟩ := h.flight hsound hstep
      obtain ⟨h', hon⟩ := ih h₁ hrun
      exact ⟨h', hon.task_eq.trans hon₁.task_eq, hon.firedAt_eq.trans hon₁.firedAt_eq,
        hon.clusters_eq.trans hon₁.clusters_eq⟩

def Flight.rank {σ : Type} (f : Flight σ) (i : Nat) : Nat :=
  (f.units[i]?.map fun u => u.2.rank).getD 0

theorem Scattered.rank_flight (h : Scattered m₀ m f.spec f.units) (hsound : m₀.Sound)
    (hfree : ∀ c ∈ f.units.map Prod.fst, Free m₀ c) {i : Nat} (hstep : f.step m i = (m', f'))
    {j : Nat} (hj : j < f.units.length) :
    min 3 (f.rank j + if i = j then 1 else 0) ≤ f'.rank j := by
  rcases f.step_cases m i with ⟨hnone, heq⟩ | ⟨l, c, p, l', hunits, hlength, heq⟩
  · cases heq.symm.trans hstep
    have hij : i ≠ j := by
      rintro rfl
      rw [List.getElem?_eq_none_iff] at hnone
      omega
    rw [if_neg hij]
    exact Nat.min_le_right _ _
  · cases heq.symm.trans hstep
    rw [hunits] at h hfree
    have hgo : min 3 (p.rank + 1) ≤ (p.step c f.spec m).2.rank :=
      h.rank_step hsound (hfree c (by simp)) rfl
    by_cases hij : i = j
    · subst hlength hij
      simpa [Flight.rank, hunits] using hgo
    · have hsame : (l ++ (c, (p.step c f.spec m).2) :: l')[j]? = f.units[j]? := by
        rw [hunits, List.getElem?_append, List.getElem?_append]
        split
        · rfl
        · rw [List.getElem?_cons, List.getElem?_cons, if_neg (by omega), if_neg (by omega)]
      simp only [Flight.rank, hsame, hij, if_false, Nat.add_zero]
      exact Nat.min_le_right _ _

/-- After enough steps the work on a cluster is done. -/
theorem Scattered.rank_run (hsound : m₀.Sound) (steps : List Nat)
    (h : Scattered m₀ m f.spec f.units) (hfree : ∀ c ∈ f.units.map Prod.fst, Free m₀ c)
    (hrun : Service.workThrough m f (steps.map .step) = (m', f')) {j : Nat}
    (hj : j < f.units.length) : min 3 (f.rank j + steps.count j) ≤ f'.rank j := by
  induction steps generalizing m f with
  | nil =>
    cases hrun
    exact Nat.min_le_right _ _
  | cons i steps ih =>
    cases hstep : f.step m i with
    | mk m₁ f₁ =>
      simp only [List.map_cons, Service.workThrough, hstep] at hrun
      obtain ⟨h₁, hon⟩ := h.flight hsound hstep
      have hgo := h.rank_flight hsound hfree hstep hj
      have hrest := ih h₁ (by rwa [hon.clusters_eq]) hrun (by rwa [hon.length_eq])
      simp only [List.count_cons, beq_iff_eq]
      omega

end Snapshots.Firing
