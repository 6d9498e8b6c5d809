import Snapshots.Proofs.Firing.Gather
import Snapshots.Proofs.Service.Handout
import Snapshots.Proofs.Service.Succession
import Snapshots.Proofs.Text.Decimal

/-! # Names of snapshots

The name of a snapshot tells the name of its task and the second of its firing. So a firing can only
be in the way of another if it was for a task of the same namespace and name in the same second.
Main statement: `Run.in_the_way`.
-/

namespace Snapshots

open Cluster Firing Time

/-- Two texts that are parted by a separator are the same parted in the same place, or else what is
between the two places belongs to the end of the one and to the beginning of the other. -/
theorem append_cons_eq_iff {α : Type} {l l' d d' : List α} {c : α} :
    l ++ c :: d = l' ++ c :: d' ↔ (l = l' ∧ d = d') ∨
      (∃ part, l' = l ++ c :: part ∧ d = part ++ c :: d') ∨
      ∃ part, l = l' ++ c :: part ∧ d' = part ++ c :: d := by
  constructor
  · intro h
    rcases List.append_eq_append_iff.1 h with ⟨a, ha, hc⟩ | ⟨a, ha, hc⟩
    · cases a with
      | nil => exact .inl ⟨by rw [ha, List.append_nil], (List.cons.inj hc).2⟩
      | cons x part =>
        obtain ⟨rfl, hd⟩ := List.cons.inj hc
        exact .inr (.inl ⟨part, ha, hd⟩)
    · cases a with
      | nil => exact .inl ⟨by rw [ha, List.append_nil], (List.cons.inj hc).2.symm⟩
      | cons x part =>
        obtain ⟨rfl, hd⟩ := List.cons.inj hc
        exact .inr (.inr ⟨part, ha, hd⟩)
  · rintro (⟨rfl, rfl⟩ | ⟨part, rfl, rfl⟩ | ⟨part, rfl, rfl⟩) <;> simp

theorem append_cons_inj {α : Type} {l l' d d' : List α} {c : α} (hd : c ∉ d) (hd' : c ∉ d')
    (h : l ++ c :: d = l' ++ c :: d') : l = l' ∧ d = d' := by
  rcases append_cons_eq_iff.1 h with h | ⟨part, -, rfl⟩ | ⟨part, -, rfl⟩
  · exact h
  · exact absurd List.mem_append_cons_self hd
  · exact absurd List.mem_append_cons_self hd'

theorem toList_hyphen (s s' : String) : (s ++ "-" ++ s').toList = s.toList ++ '-' :: s'.toList := by
  simp

theorem hyphen_toString_inj {s s' : String} {n n' : Int} (hn : 0 ≤ n) (hn' : 0 ≤ n') :
    s ++ "-" ++ toString n = s' ++ "-" ++ toString n' ↔ s = s' ∧ n = n' := by
  constructor
  · intro h
    have hlist := congrArg String.toList h
    rw [toList_hyphen, toList_hyphen, Text.toList_toString hn, Text.toList_toString hn'] at hlist
    have hdash : ∀ k, '-' ∉ Text.digits k := fun k hmem =>
      Bool.false_ne_true (Nat.isDigit_of_mem_toDigits (by decide) (by decide) hmem)
    obtain ⟨hs, hdigits⟩ := append_cons_inj (hdash _) (hdash _) hlist
    have hnat := Text.digits_inj hdigits
    exact ⟨String.toList_inj.1 hs, by omega⟩
  · rintro ⟨rfl, rfl⟩
    rfl

theorem Task.snapshotName_eq_iff {t t' : Task} {firedAt firedAt' : Instant}
    (h : 0 ≤ firedAt.seconds) (h' : 0 ≤ firedAt'.seconds) :
    t.snapshotName firedAt = t'.snapshotName firedAt' ↔
      t.name = t'.name ∧ firedAt.seconds = firedAt'.seconds :=
  hyphen_toString_inj h h'

namespace Cluster.Memory

variable {m : Memory} {spec other : Spec}

/-- Some server has a snapshot. -/
def Holds (m : Memory) (spec : Spec) : Prop :=
  ∃ s ∈ m.servers, spec ∈ s.snapshots

theorem snapshots_create {s : Server} {ns : String} (h : other ∈ (s.create ns spec).1.snapshots) :
    other ∈ s.snapshots ∨ other = spec := by
  unfold Server.create at h
  split at h
  · exact .inl h
  · split at h
    · exact .inl h
    · exact (List.mem_append.1 h).imp_right List.mem_singleton.1

theorem holds_create {n : Nat} {ns : String} (h : (m.create n ns spec).1.Holds other) :
    m.Holds other ∨ other = spec := by
  obtain ⟨s', hs', hother⟩ := h
  obtain ⟨k, hk, hget⟩ := List.mem_iff_getElem.1 hs'
  simp only [create, modify] at hk hget
  rw [List.length_modify] at hk
  rw [List.getElem_modify] at hget
  split at hget
  · rename_i hn
    subst hn
    rw [List.getElem?_eq_getElem hk, Option.getD_some] at hget
    subst hget
    exact (snapshots_create hother).imp_left fun h => ⟨_, List.getElem_mem hk, h⟩
  · exact .inl ⟨s', hget ▸ List.getElem_mem hk, hother⟩

theorem holds_step {f : Flight Nat} {unit : Nat} (h : (f.step m unit).1.Holds other) :
    m.Holds other ∨ other = f.task.asked f.firedAt := by
  unfold Flight.step at h
  split at h
  · exact .inl h
  · rename_i cluster progress hunit
    cases progress with
    | waiting => exact .inl h
    | listing n => exact .inl h
    | creating n => exact holds_create h
    | done r => exact .inl h

theorem exists_of_create_error {s : Server} {ns : String} {e : Error} (hf : s.failure = none)
    (h : (s.create ns spec).2 = .error e) :
    ∃ other ∈ s.snapshots, other.ns = ns ∧ other.name = spec.name := by
  simp only [Server.create, hf] at h
  split at h
  · rename_i hhas
    simpa [Server.hasSnapshot] using hhas
  · cases h

end Cluster.Memory

namespace Service

variable {σ φ : Type}

namespace Busy

variable {w w' : Busy φ σ}

variable [Fleet φ σ]

theorem Step.shots {c? : Option Change} (hs : Step w c? w') {shot : Task × Instant}
    (h : shot ∈ w'.shots) : shot ∈ w.shots ∨ shot ∈ w.begun w' := by
  obtain ⟨x, hx, hshot⟩ := mem_shots_iff.1 h
  cases hs.brought x hx with
  | kept hold => exact .inl (mem_shots_iff.2 ⟨x, hold, hshot⟩)
  | run hstamp hbegun =>
    cases hshot
    exact .inr hbegun
  | runJob hjob hbegun =>
    cases hshot
    exact .inr hbegun
  | @launched t firedAt hold => exact .inl (mem_shots_iff.2 ⟨.stamped t firedAt, hold, hshot⟩)
  | @worked f unit hold =>
    rw [shot?_step] at hshot
    exact .inl (mem_shots_iff.2 ⟨.working f, hold, hshot⟩)
  | ended hended => cases hended.symm.trans hshot

end Busy

namespace Succession

variable {o : Options} {p : Memory → Prop} {foreign : Spec → Prop} {site : Site Memory}
  {h : Succession Memory Nat} {log : List (Task × Instant)}

/-- What comes to a fleet from outside are foreign snapshots. -/
def Brings (foreign : Spec → Prop) (m m' : Memory) : Prop :=
  ∀ x, m'.Holds x → m.Holds x ∨ foreign x

/-- Every snapshot was there at the beginning, is foreign or is that of a firing of the run. -/
theorem Run.origin (r : Run o p (Brings foreign) site log h) :
    (∀ x, h.site.fleet.Holds x →
      site.fleet.Holds x ∨ foreign x ∨ ∃ s ∈ log, x = s.1.asked s.2) ∧
      ∀ w ∈ h.services, ∀ s ∈ w.shots, s ∈ log := by
  induction r with
  | rest => exact ⟨fun x hx => .inl hx, fun w hw => absurd hw List.not_mem_nil⟩
  | @step log h shots h' r hs hp ih =>
    obtain ⟨hold, hshots⟩ := ih
    cases hs with
    | enter m q hws hx henter hq =>
      rw [List.append_nil]
      exact ⟨hold, forall_replaced hws hshots id⟩
    | @act ws w ws' c? w' hws hs hlock hfleet =>
      have hw := hshots w (hws ▸ List.mem_append_cons_self)
      have hlog : ∀ {s}, s ∈ log → s ∈ log ++ w.begun w' := List.mem_append_left _
      refine ⟨fun x hx => ?_, ?_⟩
      · have hx' : h.site.fleet.Holds x ∨ ∃ s ∈ log, x = s.1.asked s.2 := by
          rcases hfleet with hfleet | ⟨f, unit, hf, hfleet⟩
          · exact .inl (hfleet ▸ hx)
          · have hshot : (f.task, f.firedAt) ∈ w.shots := Busy.mem_shots_iff.2 ⟨_, hf, rfl⟩
            exact (Memory.holds_step (hfleet ▸ hx)).imp_right fun hx => ⟨_, hw _ hshot, hx⟩
        rcases hx' with hx | ⟨s, hs, hx⟩
        · rcases hold x hx with hx | hx | ⟨s, hs, hx⟩
          · exact .inl hx
          · exact .inr (.inl hx)
          · exact .inr (.inr ⟨s, hlog hs, hx⟩)
        · exact .inr (.inr ⟨s, hlog hs, hx⟩)
      · refine forall_replaced hws (fun v hv s hs => hlog (hshots v hv s hs)) fun _ s hshot => ?_
        rcases hs.shots hshot with hshot | hbegun
        · exact hlog (hw s hshot)
        · exact List.mem_append_right _ hbegun
    | deliver hv hjob hws =>
      rw [List.append_nil]
      exact ⟨hold, forall_replaced hws hshots id⟩
    | change hbrings =>
      rw [List.append_nil]
      refine ⟨fun x hx => ?_, hshots⟩
      rcases hbrings x hx with hx | hx
      · exact hold x hx
      · exact .inr (.inl hx)
    | begin owner options m hpolicy hpath =>
      rw [List.append_nil]
      have hfleet : (Busy.start (σ := Nat) h.site owner options m).fleet = h.site.fleet :=
        (start_frame h.site owner options m).2.2.1
      refine ⟨fun x hx => hold x (hfleet ▸ hx), List.forall_mem_append.2 ⟨hshots, ?_⟩⟩
      exact List.forall_mem_singleton.2 fun s hs => absurd hs List.not_mem_nil
    | reboot hengine hleaves =>
      rw [List.append_nil]
      exact ⟨hold, fun w hw => absurd hw List.not_mem_nil⟩

/-- Two firings from 1970 on ask for the same snapshot exactly if they are for tasks of the same
namespace and name in the same second. So, in a run, a server that does not fail its requests
refuses the snapshot of a firing for no other firing than such a one: the snapshot of that name
that it has is of such a firing, or it was there at the beginning or came from outside. -/
theorem Run.in_the_way (r : Run o p (Brings foreign) site log h)
    (hlog : ∀ s ∈ log, 0 ≤ s.2.seconds) :
    (∀ {t t' : Task} {firedAt firedAt' : Instant}, 0 ≤ firedAt.seconds → 0 ≤ firedAt'.seconds →
      (((t.asked firedAt).ns, (t.asked firedAt).name) =
          ((t'.asked firedAt').ns, (t'.asked firedAt').name) ↔
        t.ns = t'.ns ∧ t.name = t'.name ∧ firedAt.seconds = firedAt'.seconds)) ∧
    ∀ w ∈ h.services, ∀ {f}, .working f ∈ w.firings → ∀ server ∈ h.site.fleet.servers,
      server.failure = none → ∀ {e}, (server.create f.task.ns f.spec).2 = .error e →
        ∃ x ∈ server.snapshots, x.ns = f.task.ns ∧ x.name = f.snapshotName ∧
          (site.fleet.Holds x ∨ foreign x ∨ ∃ s ∈ log, x = s.1.asked s.2 ∧
            s.1.ns = f.task.ns ∧ s.1.name = f.task.name ∧
            s.2.seconds = f.firedAt.seconds) := by
  refine ⟨fun {t t' firedAt firedAt'} h h' => ?_, ?_⟩
  · rw [Prod.mk.injEq]
    exact and_congr_right fun _ => Task.snapshotName_eq_iff h h'
  · intro w hw f hf server hserver hfailure e he
    obtain ⟨horigin, hshots⟩ := r.origin
    obtain ⟨x, hx, hns, hname⟩ := Memory.exists_of_create_error hfailure he
    refine ⟨x, hx, hns, hname, ?_⟩
    rcases horigin x ⟨server, hserver, hx⟩ with hx | hx | ⟨s, hs, rfl⟩
    · exact .inl hx
    · exact .inr (.inl hx)
    · have hshot := hshots w hw _ (Busy.mem_shots_iff.2 ⟨_, hf, rfl⟩)
      exact .inr (.inr ⟨s, hs, rfl, hns,
        (Task.snapshotName_eq_iff (hlog s hs) (hlog _ hshot)).1 hname⟩)

end Succession

end Service

namespace Sample

def shot : Memory × Flight Nat :=
  Service.workThrough running.fleet (running.launch stamped moment.now) ([0, 0, 0].map .step)

def shooting : Service Memory :=
  { running with fleet := shot.1 }

def shotAgain : Service Memory :=
  (shooting.put stamped).persist moment

theorem run_shotAgain : Service.Succession.Run options (fun _ => True)
    (Service.Succession.Brings fun _ => False) equipped
    [(stamped, moment.now), (stamped, moment.now)]
    ⟨shotAgain.toSite, [⟨shotAgain, none, [],
      [.working shot.2, .working (shotAgain.launch stamped moment.now)]⟩]⟩ := by
  have hstart : Service.Succession.Run (σ := Nat) options (fun _ => True)
      (Service.Succession.Brings fun _ => False) equipped [] _ :=
    .start rfl trivial 0 options moment rfl rfl
  have hget : (started.create moment definition "alice").1.tasks.get? id =
      some (.ofDefinition definition "alice" moment.now) := by
    decide +kernel
  have hstamp : (started.create moment definition "alice").1.stamp moment id moment.now =
      some (running, stamped) := by
    simp only [Service.stamp, hget]
    rfl
  have hrun := (hstart.create moment definition "alice").run hstamp
  have hlaunched := hrun.launch (l := [])
  have hshot := hlaunched.work (l := []) (fun _ _ h => h) (Prod.mk.eta (p := shot)).symm
  have hgetAgain : shooting.tasks.get? id = some stamped := by decide +kernel
  have hstampAgain : shooting.stamp moment id moment.now = some (shotAgain, stamped) := by
    simp only [Service.stamp, hgetAgain]
    rfl
  have hrunAgain := hshot.run hstampAgain
  exact hrunAgain.launch (l := [.working shot.2])

end Sample

/-- The first run is in the way of the second. -/
theorem Service.Succession.Run.in_the_way_again :
    0 ≤ Sample.moment.now.seconds ∧
      ∀ server ∈ Sample.shotAgain.fleet.servers,
        ∃ x ∈ server.snapshots, x.ns = "prod" ∧ x.name = "db-1714566896" ∧
          x = Sample.stamped.asked Sample.moment.now := by
  have hnow : 0 ≤ Sample.moment.now.seconds := by decide +kernel
  refine ⟨hnow, fun server hserver => ?_⟩
  have hlog : ∀ s ∈ [(Sample.stamped, Sample.moment.now), (Sample.stamped, Sample.moment.now)],
      0 ≤ s.2.seconds := by
    simpa using hnow
  obtain ⟨-, hway⟩ := Sample.run_shotAgain.in_the_way hlog
  have hservers : ∀ server ∈ Sample.shotAgain.fleet.servers, server.failure = none ∧
      (server.create "prod" (Sample.shotAgain.launch Sample.stamped Sample.moment.now :
        Flight Nat).spec).2 =
          .error (.request "east" "volumesnapshot prod/db-1714566896 already exists") := by
    decide +kernel
  obtain ⟨hfailure, hrefused⟩ := hservers server hserver
  have hf : Stage.working (Sample.shotAgain.launch Sample.stamped Sample.moment.now) ∈
      [Stage.working Sample.shot.2,
        .working (Sample.shotAgain.launch Sample.stamped Sample.moment.now)] :=
    List.mem_cons_of_mem _ (List.mem_singleton_self _)
  obtain ⟨x, hx, hns, hname, horigin⟩ :=
    hway _ (List.mem_singleton_self _) hf server hserver hfailure hrefused
  have hempty : ∀ server ∈ Sample.equipped.fleet.servers, server.snapshots = [] := by
    decide +kernel
  refine ⟨x, hx, hns, hname.trans (by decide +kernel), ?_⟩
  rcases horigin with ⟨server', hserver', hx'⟩ | hforeign | ⟨s, hs, rfl, -⟩
  · rw [hempty server' hserver'] at hx'
    cases hx'
  · exact hforeign.elim
  · simp only [List.mem_cons, List.not_mem_nil, or_false, or_self] at hs
    rw [hs]

namespace Sample

def later : Moment where
  now := (Instant.ofParts? 1714566897 0).getD default

def twins : Host Memory Nat :=
  let h := Host.start equipped options moment
  let h := h.keep (h.create moment definition "alice").1
  let h := h.keep (h.create later definition "alice").1
  let h := (h.run later id).1
  (h.run later "prod-db-1714566897").1

end Sample

/-- Two tasks of different identities ask for the same snapshot, and one is refused it. -/
theorem Host.twins_in_the_way :
    (Sample.twins.advance Sample.later).2.map
        (fun r => (r.2.taskId, r.2.snapshotName, r.2.errorSummary?)) =
      [(Sample.id, "db-1714566897", none),
        ("prod-db-1714566897", "db-1714566897", some ("cluster east: request to cluster east " ++
          "failed: volumesnapshot prod/db-1714566897 already exists"))] := by
  decide +kernel

end Snapshots
