import Snapshots.Cluster.Memory
import Snapshots.Firing.Target

/-! # Fleets in memory and snapshots

A name of a fleet in memory leads to the server of that name, if it leads to one. What work on a
cluster comes to is decided by how its name stands.
-/

namespace Snapshots.Cluster

open Firing

namespace Server

/-- What a server answers to a firing. -/
def verdict (s : Server) (spec : Spec) : Except TargetError Created :=
  match s.failure with
  | some message => .error (.refused (.request s.name message))
  | none =>
    if (spec.ns, spec.sourceVolume) ∈ s.volumes then
      (s.create spec.ns spec).2.mapError .refused
    else .error (.missingVolume spec.ns spec.sourceVolume s.name)

/-- A server takes a snapshot if it does not fail its requests, has the volume, and has no snapshot
of that name. -/
structure Takes (s : Server) (spec : Spec) : Prop where
  failure_eq : s.failure = none
  mem_volumes : (spec.ns, spec.sourceVolume) ∈ s.volumes
  fresh : ∀ other ∈ s.snapshots, ¬ (other.ns = spec.ns ∧ other.name = spec.name)

/-- The server after a firing. -/
def after (s : Server) (spec : Spec) : Server :=
  match s.verdict spec with
  | .ok _ => { s with snapshots := s.snapshots ++ [spec] }
  | .error _ => s

variable {s : Server} {spec : Spec}

theorem hasSnapshot_eq_false_iff {ns name : String} :
    s.hasSnapshot ns name = false ↔
      ∀ other ∈ s.snapshots, ¬ (other.ns = ns ∧ other.name = name) := by
  simp [hasSnapshot]

theorem verdict_of_takes (h : s.Takes spec) : s.verdict spec = .ok ⟨spec.name, spec.ns, none⟩ := by
  have hfresh := hasSnapshot_eq_false_iff.2 h.fresh
  simp only [verdict, h.failure_eq, h.mem_volumes, if_true, create, hfresh]
  rfl

theorem verdict_of_not_takes (h : ¬ s.Takes spec) : ∃ e, s.verdict spec = .error e := by
  unfold verdict
  split
  · exact ⟨_, rfl⟩
  · rename_i hf
    split
    · rename_i hv
      cases hs : s.hasSnapshot spec.ns spec.name with
      | false => exact absurd ⟨hf, hv, hasSnapshot_eq_false_iff.1 hs⟩ h
      | true =>
        simp only [create, hf, hs, if_true]
        exact ⟨_, rfl⟩
    · exact ⟨_, rfl⟩

theorem after_of_takes (h : s.Takes spec) :
    s.after spec = { s with snapshots := s.snapshots ++ [spec] } := by
  simp [after, verdict_of_takes h]

theorem after_of_verdict {e : TargetError} (h : s.verdict spec = .error e) :
    s.after spec = s := by
  simp [after, h]

theorem after_of_not_takes (h : ¬ s.Takes spec) : s.after spec = s := by
  obtain ⟨e, he⟩ := verdict_of_not_takes h
  exact after_of_verdict he

theorem create_of_mem_volumes (hf : s.failure = none)
    (hv : (spec.ns, spec.sourceVolume) ∈ s.volumes) :
    (s.create spec.ns spec).1 = s.after spec ∧
      s.verdict spec = (s.create spec.ns spec).2.mapError .refused := by
  have hverdict : s.verdict spec = (s.create spec.ns spec).2.mapError .refused := by
    simp [verdict, hf, hv]
  refine ⟨?_, hverdict⟩
  rw [after, hverdict]
  cases hs : s.hasSnapshot spec.ns spec.name <;> simp only [create, hf, hs] <;> rfl

theorem any_answer (hf : s.failure = none) (ns volume : String) :
    ∃ volumes, s.answer ns = .ok volumes ∧
      (volumes.any (·.name = volume) = true ↔ (ns, volume) ∈ s.volumes) := by
  refine ⟨_, by rw [answer, hf], ?_⟩
  simp [List.any_map, List.mem_mergeSort]

end Server

/-- How a name of a fleet stands. -/
inductive Standing where
  | online (s : Server)
  | disabled
  | unavailable
  | unknown

def Standing.verdict (cluster : String) (spec : Spec) : Standing → Except TargetError Created
  | online s => s.verdict spec
  | disabled => .error (.refused (.disabled cluster))
  | unavailable => .error (.refused (.unavailable cluster))
  | unknown => .error (.refused (.notFound cluster))

namespace Memory

variable {m : Memory} {name : String} {n : Nat}

def standing (m : Memory) (name : String) : Standing :=
  match m.slots.get? name with
  | some (.online n) => .online (m.servers[n]?.getD default)
  | some .disabled => .disabled
  | some .unavailable => .unavailable
  | none => .unknown

theorem resolve_cases (m : Memory) (name : String) :
    (∃ n, m.slots.get? name = some (.online n) ∧ m.resolve name = .ok n) ∨
      ∃ e, (∀ n, m.slots.get? name ≠ some (.online n)) ∧ m.resolve name = .error e ∧
        ∀ spec, (m.standing name).verdict name spec = .error (.refused e) := by
  simp only [resolve, standing]
  cases m.slots.get? name with
  | none => exact .inr ⟨_, by simp, rfl, fun _ => rfl⟩
  | some slot =>
    cases slot with
    | online n => exact .inl ⟨n, rfl, rfl⟩
    | disabled => exact .inr ⟨_, by simp, rfl, fun _ => rfl⟩
    | unavailable => exact .inr ⟨_, by simp, rfl, fun _ => rfl⟩

/-- A name that leads to a server leads to the server of that name. -/
def Sound (m : Memory) : Prop :=
  ∀ {name n}, m.slots.get? name = some (.online n) → ∃ s, m.servers[n]? = some s ∧ s.name = name

/-- A name leads to a server that takes a snapshot. -/
def Takes (m : Memory) (spec : Spec) (name : String) : Prop :=
  ∃ n s, m.slots.get? name = some (.online n) ∧ m.servers[n]? = some s ∧ s.Takes spec

theorem takes_iff {s : Server} {spec : Spec} (hn : m.slots.get? name = some (.online n))
    (hs : m.servers[n]? = some s) : m.Takes spec name ↔ s.Takes spec := by
  constructor
  · rintro ⟨n', s', hn', hs', ht⟩
    cases hn.symm.trans hn'
    cases hs.symm.trans hs'
    exact ht
  · exact fun ht => ⟨n, s, hn, hs, ht⟩

theorem Sound.verdict_cases (h : m.Sound) (spec : Spec) (name : String) :
    (m.Takes spec name ∧
      (m.standing name).verdict name spec = .ok ⟨spec.name, spec.ns, none⟩) ∨
    (¬ m.Takes spec name ∧ ∃ e, (m.standing name).verdict name spec = .error e) := by
  rcases m.resolve_cases name with ⟨n, hn, -⟩ | ⟨e, hn, -, he⟩
  · obtain ⟨s, hs, -⟩ := h hn
    have hstanding : m.standing name = .online s := by simp [standing, hn, hs]
    rw [takes_iff hn hs, hstanding]
    by_cases ht : s.Takes spec
    · exact .inl ⟨ht, Server.verdict_of_takes ht⟩
    · exact .inr ⟨ht, Server.verdict_of_not_takes ht⟩
  · refine .inr ⟨?_, _, he spec⟩
    rintro ⟨n, -, hn', -⟩
    exact hn n hn'

theorem sound_new (current : String) (routes : Bool) : (new current routes).Sound := by
  intro name n h
  cases h

theorem Sound.add (h : m.Sound) (s : Server) : (m.add s).Sound := by
  intro name n hn
  simp only [Memory.add, Table.get?_insert] at hn ⊢
  split at hn
  · rename_i hname
    cases hn
    exact ⟨s, by simp, hname.symm⟩
  · obtain ⟨s', hs', hname⟩ := h hn
    exact ⟨s', by rw [List.getElem?_append_left (List.getElem?_eq_some_iff.1 hs').1, hs'], hname⟩

theorem Sound.insert (h : m.Sound) (name : String) {slot : Slot}
    (hslot : ∀ n, slot ≠ .online n) : ({ m with slots := m.slots.insert name slot }).Sound := by
  intro other n hn
  rw [Table.get?_insert] at hn
  split at hn
  · exact absurd (Option.some.inj hn) (hslot n)
  · exact h hn

theorem Sound.disable (h : m.Sound) (name : String) : (m.disable name).Sound :=
  h.insert name (by simp)

theorem Sound.markUnavailable (h : m.Sound) (name : String) : (m.markUnavailable name).Sound :=
  h.insert name (by simp)

theorem Sound.modify (h : m.Sound) (number : Nat) {f : Server → Server}
    (hf : ∀ s, (f s).name = s.name) : (m.modify number f).Sound := by
  intro name n hn
  obtain ⟨s, hs, hname⟩ := h hn
  simp only [Memory.modify, List.getElem?_modify, hs]
  split
  · exact ⟨f s, rfl, (hf s).trans hname⟩
  · exact ⟨s, rfl, hname⟩

end Memory

end Snapshots.Cluster
