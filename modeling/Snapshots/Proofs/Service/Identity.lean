import Snapshots.Proofs.Service.Naming
import Snapshots.Proofs.Service.Replay

/-! # Identities of tasks

The identity of a task is its namespace, its name and the second of its creation with hyphens
between them. Namespaces and names may have hyphens as well, so not only a task of the same
namespace and name stands in the way of a new one in the second of its creation. Main statement:
`Reached.create_collides_iff`.
-/

namespace Snapshots

open Time

/-- Namespaces and names that cannot be told apart once there are hyphens between them: the same, or
such that a part stands behind a hyphen in the one namespace and before one in the other name. -/
inductive ReadAlike : String → String → String → String → Prop
  | same {ns name} : ReadAlike ns name ns name
  | longer {ns part name} : ReadAlike ns (part ++ "-" ++ name) (ns ++ "-" ++ part) name
  | shorter {ns part name} : ReadAlike (ns ++ "-" ++ part) name ns (part ++ "-" ++ name)

section

variable {ns name ns' name' : String}

theorem readAlike_iff : ns ++ "-" ++ name = ns' ++ "-" ++ name' ↔ ReadAlike ns name ns' name' := by
  constructor
  · intro h
    have hlist := congrArg String.toList h
    rw [toList_hyphen, toList_hyphen] at hlist
    rcases append_cons_eq_iff.1 hlist with ⟨hns, hname⟩ | ⟨part, hns, hname⟩ | ⟨part, hns, hname⟩
    · rw [String.toList_inj.1 hns, String.toList_inj.1 hname]
      exact .same
    · have hns : ns' = ns ++ "-" ++ String.ofList part := by
        rw [← String.toList_inj, hns, toList_hyphen, String.toList_ofList]
      have hname : name = String.ofList part ++ "-" ++ name' := by
        rw [← String.toList_inj, hname, toList_hyphen, String.toList_ofList]
      rw [hns, hname]
      exact .longer
    · have hns : ns = ns' ++ "-" ++ String.ofList part := by
        rw [← String.toList_inj, hns, toList_hyphen, String.toList_ofList]
      have hname : name' = String.ofList part ++ "-" ++ name := by
        rw [← String.toList_inj, hname, toList_hyphen, String.toList_ofList]
      rw [hns, hname]
      exact .shorter
  · intro h
    cases h <;> simp only [String.append_assoc]

theorem hyphen_mem (s s' : String) : '-' ∈ (s ++ "-" ++ s').toList := by
  rw [toList_hyphen]
  exact List.mem_append_cons_self

/-- Where the namespaces have no hyphens, or the names have none, nothing else reads alike. -/
theorem ReadAlike.eq (h : ReadAlike ns name ns' name')
    (hhyphen : ('-' ∉ ns.toList ∧ '-' ∉ ns'.toList) ∨ ('-' ∉ name.toList ∧ '-' ∉ name'.toList)) :
    ns = ns' ∧ name = name' := by
  cases h with
  | same => exact ⟨rfl, rfl⟩
  | longer =>
    rcases hhyphen with h | h
    · exact absurd (hyphen_mem ..) h.2
    · exact absurd (hyphen_mem ..) h.1
  | shorter =>
    rcases hhyphen with h | h
    · exact absurd (hyphen_mem ..) h.1
    · exact absurd (hyphen_mem ..) h.2

theorem Task.makeId_eq_iff {createdAt createdAt' : Instant} (h : 0 ≤ createdAt.seconds)
    (h' : 0 ≤ createdAt'.seconds) :
    makeId ns name createdAt = makeId ns' name' createdAt' ↔
      ReadAlike ns name ns' name' ∧ createdAt.seconds = createdAt'.seconds := by
  rw [makeId, makeId, hyphen_toString_inj h h', readAlike_iff]

end

/-- A task that has the identity that was made for it, from 1970 on. -/
structure Task.Identified (t : Task) : Prop where
  id_eq : t.id = makeId t.ns t.name t.createdAt
  since : 0 ≤ t.createdAt.seconds

namespace Change

/-- A change that gives its task another namespace or name. -/
def Renames (tasks : Table String Task) : Change → Prop
  | updated id d _ => ∃ t, tasks.get? id = some t ∧ ¬ (d.ns = t.ns ∧ d.name = t.name)
  | _ => False

/-- A change that creates no task before 1970. -/
def Since1970 : Change → Prop
  | created _ _ now => 0 ≤ now.seconds
  | _ => True

theorem identified_onto {tasks : Table String Task} {c : Change}
    (h : ∀ {k t}, tasks.get? k = some t → t.Identified) (hkeeps : ¬ c.Renames tasks)
    (hsince : c.Since1970) {k : String} {t : Task} (ht : (c.onto tasks).get? k = some t) :
    t.Identified := by
  rw [get?_onto] at ht
  split at ht
  · rename_i hk
    subst hk
    cases c with
    | created d createdBy now =>
      cases ht
      exact ⟨rfl, hsince⟩
    | updated id d now =>
      obtain ⟨previous, hprevious, rfl⟩ := Option.map_eq_some_iff.1 ht
      have hnames : d.ns = previous.ns ∧ d.name = previous.name := by
        by_contra hother
        exact hkeeps ⟨previous, hprevious, hother⟩
      obtain ⟨hid, hat⟩ := h hprevious
      refine ⟨?_, hat⟩
      rw [Task.apply, hid, hnames.1, hnames.2]
    | toggled id now =>
      obtain ⟨previous, hprevious, rfl⟩ := Option.map_eq_some_iff.1 ht
      exact ⟨(h hprevious).id_eq, (h hprevious).since⟩
    | deleted id => cases ht
    | stamped id firedAt scheduled =>
      obtain ⟨previous, hprevious, rfl⟩ := Option.map_eq_some_iff.1 ht
      exact ⟨(h hprevious).id_eq, (h hprevious).since⟩
  · exact h ht

end Change

/-- None of the changes gives a task another namespace or name. -/
def NeverRenamed (tasks : Table String Task) (log : List Change) : Prop :=
  ∀ before c after, log = before ++ c :: after → ¬ c.Renames (replay tasks before)

theorem identified_replay {tasks : Table String Task} {log : List Change}
    (h : ∀ {k t}, tasks.get? k = some t → t.Identified) (hkept : NeverRenamed tasks log)
    (hsince : ∀ c ∈ log, c.Since1970) {k : String} {t : Task}
    (ht : (replay tasks log).get? k = some t) : t.Identified := by
  induction log using List.reverseRecOn generalizing k t with
  | nil => exact h ht
  | append_singleton log c ih =>
    rw [replay_append] at ht
    refine Change.identified_onto (fun ht => ih ?_ ?_ ht) (hkept log c [] rfl)
      (hsince c (List.mem_append_right _ List.mem_cons_self)) ht
    · rintro before c' after rfl
      exact hkept before c' (after ++ [c]) (by simp)
    · exact fun c' hc' => hsince c' (List.mem_append_left _ hc')

namespace Service

variable {φ σ : Type} [Fleet φ σ]

theorem create_exists_iff {s : Service φ} {m : Moment} {d : Definition}
    (hv : s.validate m d = .ok ()) (createdBy : String) :
    (∃ id, (s.create m d createdBy).2 = .error (.alreadyExists id)) ↔
      ∃ t, s.tasks.get? (Task.makeId d.ns d.name m.now) = some t := by
  rw [← Table.contains_iff]
  unfold create
  rw [hv]
  simp only
  split
  · rename_i hc
    exact iff_of_true ⟨_, rfl⟩ hc
  · rename_i hc
    refine iff_of_false ?_ hc
    split <;> simp [commit]

namespace Busy

variable {site : Site φ} {owner : Nat} {options : Options} {log : List Change} {w : Busy φ σ}

theorem Reached.identified {m : Moment} (r : Reached site owner options m log w)
    (hload : ∀ t ∈ Store.load site.files options.path, t.Identified)
    (hkept : NeverRenamed (Service.start site owner options m).tasks log)
    (hsince : ∀ c ∈ log, c.Since1970) {k : String} {t : Task} (ht : w.tasks.get? k = some t) :
    t.Identified := by
  rw [r.tasks_eq_replay.1] at ht
  refine identified_replay (fun ht => ?_) hkept hsince ht
  rw [(start_frame site owner options m).2.2.2] at ht
  exact hload _ (List.mem_of_find?_eq_some ht)

/-- Some task reads like a definition and was created in a second. -/
def Taken (w : Busy φ σ) (d : Definition) (now : Instant) : Prop :=
  ∃ t ∈ w.tasks.values, ReadAlike d.ns d.name t.ns t.name ∧ t.createdAt.seconds = now.seconds

omit [Fleet φ σ] in
theorem Tidy.get?_makeId_iff (h : Tidy w)
    (hid : ∀ {k t}, w.tasks.get? k = some t → t.Identified) {d : Definition} {now : Instant}
    (hnow : 0 ≤ now.seconds) :
    (∃ t, w.tasks.get? (Task.makeId d.ns d.name now) = some t) ↔ w.Taken d now := by
  constructor
  · rintro ⟨t, ht⟩
    have hsame := (h.id_eq ht).symm.trans (hid ht).id_eq
    obtain ⟨halike, hseconds⟩ := (Task.makeId_eq_iff hnow (hid ht).since).1 hsame
    exact ⟨t, (Table.mem_values_iff ..).2 ⟨_, ht⟩, halike, hseconds.symm⟩
  · rintro ⟨t, hmem, halike, hseconds⟩
    obtain ⟨k, ht⟩ := (Table.mem_values_iff ..).1 hmem
    have hsame := (Task.makeId_eq_iff hnow (hid ht).since).2 ⟨halike, hseconds.symm⟩
    refine ⟨t, ?_⟩
    rw [hsame, ← (hid ht).id_eq, h.id_eq ht]
    exact ht

/-- Where nothing is renamed, and from 1970 on, a valid definition is refused as a task that exists
exactly if some task reads like it and was created in the same second, whether the call was first
or had to wait for others. Where the namespaces have no hyphens, or the names have none, such a
task has the same namespace and name. -/
theorem Reached.create_collides_iff {m : Moment} (r : Reached site owner options m log w)
    (hload : ∀ t ∈ Store.load site.files options.path, t.Identified)
    (hkept : NeverRenamed (Service.start site owner options m).tasks log)
    (hsince : ∀ c ∈ log, c.Since1970) :
    (∀ {ns name ns' name' createdAt createdAt'}, 0 ≤ createdAt.seconds → 0 ≤ createdAt'.seconds →
      (Task.makeId ns name createdAt = Task.makeId ns' name' createdAt' ↔
        ReadAlike ns name ns' name' ∧ createdAt.seconds = createdAt'.seconds)) ∧
    ∀ {m' : Moment} {d : Definition} (createdBy : String), 0 ≤ m'.now.seconds →
      (w.validate m' d = .ok () →
        ((∃ id, (w.create m' d createdBy).2 = .error (.alreadyExists id)) ↔ w.Taken d m'.now)) ∧
      (∀ m'', (Request.create d createdBy m'.now).enter w.tasks m'' = none ↔ w.Taken d m'.now) ∧
      ((('-' ∉ d.ns.toList ∧ ∀ t ∈ w.tasks.values, '-' ∉ t.ns.toList) ∨
          ('-' ∉ d.name.toList ∧ ∀ t ∈ w.tasks.values, '-' ∉ t.name.toList)) →
        (w.Taken d m'.now ↔ ∃ t ∈ w.tasks.values,
          t.ns = d.ns ∧ t.name = d.name ∧ t.createdAt.seconds = m'.now.seconds)) := by
  have hid : ∀ {k t}, w.tasks.get? k = some t → t.Identified := r.identified hload hkept hsince
  refine ⟨Task.makeId_eq_iff, fun {m' d} createdBy hnow => ⟨fun hv => ?_, fun m'' => ?_, ?_⟩⟩
  · rw [create_exists_iff hv, r.tidy.get?_makeId_iff hid hnow]
  · rw [← r.tidy.get?_makeId_iff hid hnow, ← Table.contains_iff]
    by_cases hc : w.tasks.contains (Task.makeId d.ns d.name m'.now) = true
    · exact iff_of_true (if_pos hc) hc
    · refine iff_of_false (fun hnone => ?_) hc
      cases (if_neg hc).symm.trans hnone
  · intro hhyphen
    constructor
    · rintro ⟨t, ht, halike, hseconds⟩
      obtain ⟨hns, hname⟩ := halike.eq
        (hhyphen.imp (fun h => ⟨h.1, h.2 t ht⟩) fun h => ⟨h.1, h.2 t ht⟩)
      exact ⟨t, ht, hns.symm, hname.symm, hseconds⟩
    · rintro ⟨t, ht, hns, hname, hseconds⟩
      exact ⟨t, ht, by rw [hns, hname]; exact .same, hseconds⟩

end Busy

end Service

namespace Sample

def hyphened : Definition :=
  { definition with ns := "prod-db", name := "x" }

def hyphenedName : Definition :=
  { definition with ns := "prod", name := "db-x" }

def oneHyphened : Service.Busy Cluster.Memory Nat :=
  ⟨(started.create moment hyphened "alice").1, none, [], []⟩

theorem reached_oneHyphened : Service.Busy.Reached equipped 0 options moment
    [.created hyphened "alice" moment.now] oneHyphened := by
  have hstart : Service.Busy.Reached equipped 0 options moment [] ⟨started, none, [], []⟩ :=
    .refl trivial
  have hcreated := hstart.create moment hyphened "alice"
  rwa [Service.Busy.committed_of_isOk (by decide +kernel)] at hcreated

theorem neverRenamed_oneHyphened :
    NeverRenamed started.tasks [.created hyphened "alice" moment.now] := by
  rintro before c after hlog hrenames
  have hc : c ∈ [Change.created hyphened "alice" moment.now] := hlog ▸ List.mem_append_cons_self
  rw [List.mem_singleton.1 hc] at hrenames
  exact hrenames

end Sample

namespace Service.Busy

/-- The same definition is refused in the same second, as a task that exists. -/
theorem Reached.create_collides_iff_again :
    Sample.oneHyphened.Taken Sample.hyphened Sample.moment.now := by
  have hload : Store.load Sample.equipped.files Sample.options.path = [] := by decide +kernel
  have hnow : 0 ≤ Sample.moment.now.seconds := by decide +kernel
  obtain ⟨-, hcollides⟩ := Sample.reached_oneHyphened.create_collides_iff (by simp [hload])
    Sample.neverRenamed_oneHyphened (List.forall_mem_singleton.2 hnow)
  obtain ⟨hexists, -⟩ := @hcollides Sample.moment Sample.hyphened "alice" hnow
  have hvalid : Sample.oneHyphened.validate Sample.moment Sample.hyphened = .ok () := by
    decide +kernel
  exact (hexists hvalid).1 ⟨"prod-db-x-1714566896", by decide +kernel⟩

/-- A definition is refused as a task that exists, though there is no task of its namespace. -/
theorem Reached.create_collides_elsewhere :
    Reached Sample.equipped 0 Sample.options Sample.moment
      [.created Sample.hyphened "alice" Sample.moment.now] Sample.oneHyphened ∧
    Store.load Sample.equipped.files Sample.options.path = [] ∧
    NeverRenamed Sample.started.tasks [.created Sample.hyphened "alice" Sample.moment.now] ∧
    0 ≤ Sample.moment.now.seconds ∧
    Sample.oneHyphened.validate Sample.moment Sample.hyphenedName = .ok () ∧
    (Sample.oneHyphened.create Sample.moment Sample.hyphenedName "alice").2 =
      .error (.alreadyExists "prod-db-x-1714566896") ∧
    ¬ ∃ t ∈ Sample.oneHyphened.tasks.values, t.ns = Sample.hyphenedName.ns ∧
      t.name = Sample.hyphenedName.name ∧
      t.createdAt.seconds = Sample.moment.now.seconds := by
  refine ⟨Sample.reached_oneHyphened, by decide +kernel, Sample.neverRenamed_oneHyphened,
    by decide +kernel, by decide +kernel, by decide +kernel, ?_⟩
  rintro ⟨t, ht, hns, -⟩
  have hother : ∀ t ∈ Sample.oneHyphened.tasks.values, t.ns ≠ Sample.hyphenedName.ns := by
    decide +kernel
  exact hother t ht hns

end Service.Busy

end Snapshots
