import Snapshots.Proofs.Firing.Gather
import Snapshots.Proofs.Service.LastFiring
import Snapshots.Proofs.Service.Plain

/-! # Faults of the last firing

The status of a task tells what the clusters reported that failed in its last firing. A firing that
reached no cluster has nothing to report, and looks like one that never was. Where every firing
reaches a cluster, a status without faults is that of a task whose last firing was a success, or
that was never fired. Main statement: `Run.faults_reported`.
-/

namespace Snapshots

open Firing Timer Time

namespace Firing

theorem Record.errorSummary?_eq_none_iff {r : Record} :
    r.errorSummary? = none ↔ ∀ o ∈ r.outcomes, o.error = none := by
  simp [errorSummary?]

/-- The status of a firing goes by its outcomes. -/
def Record.Classified (r : Record) : Prop :=
  r.status = .classify r.outcomes

theorem classified_of_record {σ : Type} {f : Flight σ} {finishedAt : Instant} {r : Record}
    (h : f.record? finishedAt = some r) : r.Classified := by
  obtain ⟨outcomes, -, rfl⟩ := Option.map_eq_some_iff.1 h
  rfl

theorem Record.Classified.errorSummary?_eq_none_iff {r : Record} (h : r.Classified) :
    r.errorSummary? = none ↔ r.status = .success ∨ r.status = .aborted := by
  have hsuccess : r.status = .success ↔ r.outcomes ≠ [] ∧ ∀ o ∈ r.outcomes, o.error = none := by
    rw [h]
    exact Status.classify_eq_iff
  have haborted : r.status = .aborted ↔ r.outcomes = [] := by
    rw [h]
    exact Status.classify_eq_iff
  rw [Record.errorSummary?_eq_none_iff, hsuccess, haborted]
  constructor
  · intro hnone
    by_cases hnil : r.outcomes = []
    · exact .inr hnil
    · exact .inl ⟨hnil, hnone⟩
  · rintro (⟨-, hnone⟩ | hnil)
    · exact hnone
    · rw [hnil]
      exact fun o ho => absurd ho List.not_mem_nil

theorem units_launch_of_routes {φ σ : Type} [Fleet φ σ] {policy : Policy} {fleet : φ} {t : Task}
    {firedAt : Instant} (hroutes : Fleet.routes fleet = true) :
    (Flight.launch policy fleet t firedAt : Flight σ).units ≠ [] := by
  by_cases ht : t.targets = []
  · exact units_launch_ne_nil (.inl ht)
  · obtain ⟨a, as, hts⟩ := List.exists_cons_of_ne_nil ht
    simp [Flight.launch, targets?, hroutes, hts, firsts]

end Firing

namespace Service.Succession

variable {φ σ : Type} [Fleet φ σ] {o : Options} {p : φ → Prop} {outside : φ → φ → Prop}
  {site : Site φ} {h : Succession φ σ} {log : List (Task × Instant)}

theorem Run.classified (r : Run o p outside site log h) :
    ∀ w ∈ h.services, ∀ {id x}, x ∈ w.history.forTask id → x.Classified := by
  refine r.each (fun _ hhistory _ hw => ?_) (fun site owner options m => ?_) ?_
  · exact fun hx => hw (hhistory ▸ hx)
  · intro id x hx
    exact absurd (forTask_start site owner options m id) (List.ne_nil_of_mem hx)
  · intro log h r w hmem c? w' hw hs id x hx
    rcases hs.recalled hx with hx | ⟨f, finishedAt, -, hrecord⟩
    · exact hw hx
    · exact classified_of_record hrecord

theorem Run.reaching_of_routes (r : Run o p outside site log h)
    (hroutes : ∀ {fleet}, p fleet → Fleet.routes fleet = true) :
    ∀ w ∈ h.services, w.Reaching := by
  refine r.each (fun hf hh _ hw => hw.congr hf hh) Busy.reaching_start ?_
  intro log h r w hmem c? w' hw hs
  exact hw.step (fun _ => units_launch_of_routes (hroutes r.holds)) hs

/-- A site where no firing can miss all clusters: the current one stands in, or all can be reached,
or no task names any. -/
def Sheltered (o : Options) (p : φ → Prop) (site : Site φ) : Prop :=
  o.policy = .fallback ∨ (∀ {fleet}, p fleet → Fleet.routes fleet = true) ∨
    o.policy = .reject ∧ (∀ {fleet}, p fleet → Fleet.routes fleet = false) ∧
      Store.PlainFile site.files o.path

theorem Run.reaching_of_sheltered (r : Run o p outside site log h) (hs : Sheltered o p site) :
    ∀ w ∈ h.services, w.Reaching := by
  rcases hs with hfallback | hroutes | ⟨hreject, hroutes, hfile⟩
  · exact r.reaching (.inr hfallback)
  · exact r.reaching_of_routes hroutes
  · exact r.reaching (.inl fun r => (r.plain hreject hroutes hfile).2)

/-- Whatever the policy, the clusters and the file, the status of a task has no faults exactly if
the task has no firing that is remembered, or the last of them was a success or reached no cluster.
Where every firing reaches a cluster, a bad last firing is always reported. What is reported are the
faults of that firing, and its status goes by its outcomes. -/
theorem Run.faults_reported (r : Run o p outside site log h) :
    ∀ w ∈ h.services, ∀ {id t}, w.tasks.get? id = some t →
      ∃ status, (w.on h.site).toService.status id = .ok status ∧
        (status.errorMessage = none ↔ ∀ x, w.history.latest? id = some x →
          x.status = .success ∨ x.status = .aborted) ∧
        (Sheltered o p site → (status.errorMessage = none ↔
          ∀ x, w.history.latest? id = some x → x.status = .success)) ∧
        (∀ message, status.errorMessage = some message →
          ∃ x, w.history.latest? id = some x ∧ x.errorSummary? = some message) ∧
        ∀ x, w.history.latest? id = some x → ∀ st, x.status = st ↔ st.Describes x.outcomes := by
  intro w hw id t ht
  have hlatest : ∀ {x}, w.history.latest? id = some x → x ∈ w.history.forTask id := by
    intro x hx
    rw [History.latest?_eq_head?] at hx
    exact List.mem_of_mem_head? hx
  have hclassified : ∀ {x}, w.history.latest? id = some x → x.Classified := fun hx =>
    r.classified w hw (hlatest hx)
  have hstatus := status_eq (s := (w.on h.site).toService) ht
  have hnone : (w.history.latest? id).bind (·.errorSummary?) = none ↔
      ∀ x, w.history.latest? id = some x → x.status = .success ∨ x.status = .aborted := by
    rw [Option.bind_eq_none_iff]
    exact forall₂_congr fun x hx => (hclassified hx).errorSummary?_eq_none_iff
  refine ⟨_, hstatus, hnone, fun hs => hnone.trans ?_, fun message hmessage => ?_,
    fun x hx st => ?_⟩
  · refine forall₂_congr fun x hx => or_iff_left ?_
    exact (r.reaching_of_sheltered hs w hw).history (hlatest hx)
  · exact Option.bind_eq_some_iff.1 hmessage
  · rw [hclassified hx]
    exact Status.classify_eq_iff

end Service.Succession

namespace Sample

def misrouted : Record :=
  (rerouted.2.record? moment.now).getD default

def blamed : Service Cluster.Memory :=
  Service.conclude { lenient with fleet := rerouted.1 } misrouted

def straying : Site Cluster.Memory :=
  { site with
    files := (Store.save rejecting.process site.files rejecting.path
      [.ofDefinition elsewhere "alice" moment.now]).1 }

def stranded : Service Cluster.Memory :=
  ((Service.start straying 0 rejecting moment).put astray).persist moment

def nowhere : Record where
  taskId := id
  snapshotName := "db-1714566896"
  firedAt := moment.now
  finishedAt := moment.now
  status := .aborted
  outcomes := []

theorem load_straying : Store.load straying.files rejecting.path =
    [.ofDefinition elsewhere "alice" moment.now] := by
  have hsaved : (Store.save rejecting.process site.files rejecting.path
      [.ofDefinition elsewhere "alice" moment.now]).2 = .ok () := by
    decide +kernel
  have h : Store.saveWith (fun _ => false) rejecting.process site.files rejecting.path
      [.ofDefinition elsewhere "alice" moment.now] = (straying.files, .ok ()) :=
    Prod.ext rfl hsaved
  rw [Store.load_eq_of_saveWith h]
  decide +kernel

theorem stranded_frame : stranded.options = rejecting ∧ stranded.fleet = site.fleet ∧
    stranded.tasks.get? id = some astray := by
  obtain ⟨hoptions, -, hfleet, -⟩ := Service.start_frame straying 0 rejecting moment
  -- Of any service at all, so that none is evaluated.
  have hput : ∀ s : Service Cluster.Memory, ((s.put astray).persist moment).options = s.options ∧
      ((s.put astray).persist moment).fleet = s.fleet ∧
      ((s.put astray).persist moment).tasks.get? astray.id = some astray :=
    fun s => ⟨rfl, rfl, Table.get?_insert_self s.tasks astray.id astray⟩
  obtain ⟨hoptions', hfleet', htasks⟩ := hput (Service.start straying 0 rejecting moment)
  exact ⟨hoptions'.trans hoptions, hfleet'.trans hfleet, htasks⟩

theorem run_stranded : Service.Succession.Run (σ := Nat) rejecting (fun _ => True)
    (fun _ _ => False) straying [(astray, moment.now)]
    ⟨stranded.toSite, [⟨stranded.conclude nowhere, none, [], [.recorded id]⟩]⟩ := by
  obtain ⟨-, -, -, htasks⟩ := Service.start_frame straying 0 rejecting moment
  have hget : (Service.start straying 0 rejecting moment).tasks.get? id =
      some (.ofDefinition elsewhere "alice" moment.now) := by
    rw [htasks, load_straying]
    decide +kernel
  have hstamp : (Service.start straying 0 rejecting moment).stamp moment id moment.now =
      some (stranded, astray) := by
    simp only [Service.stamp, hget]
    rfl
  have hrecord : (stranded.launch astray moment.now : Flight Nat).record? moment.now =
      some nowhere := by
    rw [Service.launch, stranded_frame.1, stranded_frame.2.1]
    decide +kernel
  have hstart : Service.Succession.Run (σ := Nat) rejecting (fun _ => True) (fun _ _ => False)
      straying [] _ :=
    .start rfl trivial 0 rejecting moment rfl rfl
  exact ((hstart.run hstamp).launch (l := [])).record (l := []) hrecord

end Sample

/-- The failure of the run on the other cluster is reported. -/
theorem Service.Succession.Run.faults_reported_misrouted :
    Sample.misrouted.status = .failed ∧
      ∃ status, Sample.blamed.status Sample.id = .ok status ∧ status.errorMessage ≠ none := by
  have hrecord : Sample.rerouted.2.record? Sample.moment.now = some Sample.misrouted := by
    decide +kernel
  have hfailed : Sample.misrouted.status = .failed := by decide +kernel
  have hlatest : Sample.blamed.history.latest? Sample.id = some Sample.misrouted := by
    decide +kernel
  have ht : Sample.blamed.tasks.get? Sample.id = some Sample.astray := by decide +kernel
  obtain ⟨status, hstatus, -, hreported, -⟩ :=
    (Sample.run_lenient.record (l := []) hrecord).faults_reported _ (List.mem_singleton_self _) ht
  refine ⟨hfailed, status, hstatus, fun hnone => ?_⟩
  have hsuccess := (hreported (.inl rfl)).1 hnone _ hlatest
  rw [hfailed] at hsuccess
  cases hsuccess

/-- A firing that reached no cluster is not reported. -/
theorem Service.Succession.Run.faults_unreported_nowhere :
    Run (σ := Nat) Sample.rejecting (fun _ => True) (fun _ _ => False) Sample.straying
        [(Sample.astray, Sample.moment.now)]
        ⟨Sample.stranded.toSite,
          [⟨Sample.stranded.conclude Sample.nowhere, none, [], [.recorded Sample.id]⟩]⟩ ∧
      (Sample.stranded.conclude Sample.nowhere).history.latest? Sample.id =
        some Sample.nowhere ∧
      Sample.nowhere.status ≠ .success ∧
      ∃ status, (Sample.stranded.conclude Sample.nowhere).status Sample.id = .ok status ∧
        status.errorMessage = none := by
  have hlatest : (Sample.stranded.conclude Sample.nowhere).history.latest? Sample.id =
      some Sample.nowhere := by
    rw [conclude]
    exact History.latest?_record Sample.stranded.history Sample.nowhere
  have ht : (Sample.stranded.conclude Sample.nowhere).tasks.get? Sample.id =
      some Sample.astray := by
    have htasks : ∀ s : Service Cluster.Memory, (s.conclude Sample.nowhere).tasks = s.tasks :=
      fun _ => rfl
    rw [htasks]
    exact Sample.stranded_frame.2.2
  refine ⟨Sample.run_stranded, hlatest, nofun, _, status_eq ht, ?_⟩
  rw [hlatest]
  rfl

end Snapshots
