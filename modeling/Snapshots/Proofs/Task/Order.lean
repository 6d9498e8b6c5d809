import Mathlib.Data.List.Nodup
import Snapshots.Proofs.Time.Order
import Snapshots.Task.Basic

/-! # The order of lists

Tasks are listed by creation and then by identity, tasks that agree in both in the order in which
they come. For tasks of different identities the list does not depend on the order that they come
in.
-/

namespace Snapshots.Task

open Time

theorem listedBefore_iff {a b : Task} :
    a.listedBefore b = true ↔ Precedes (a.createdAt, a.id) (b.createdAt, b.id) := by
  simp [listedBefore, Precedes]

theorem listedBefore_trans (a b c : Task) (h₁ : a.listedBefore b = true)
    (h₂ : b.listedBefore c = true) : a.listedBefore c = true :=
  listedBefore_iff.2 ((listedBefore_iff.1 h₁).trans (listedBefore_iff.1 h₂))

theorem listedBefore_total (a b : Task) : (a.listedBefore b || b.listedBefore a) = true := by
  rw [Bool.or_eq_true, listedBefore_iff, listedBefore_iff]
  exact Precedes.total ..

theorem id_eq_of_listedBefore {a b : Task} (h₁ : a.listedBefore b = true)
    (h₂ : b.listedBefore a = true) : a.id = b.id :=
  congrArg Prod.snd ((listedBefore_iff.1 h₁).antisymm (listedBefore_iff.1 h₂))

theorem sorted_perm (ts : List Task) : (sorted ts).Perm ts :=
  List.mergeSort_perm ..

theorem sorted_pairwise (ts : List Task) :
    (sorted ts).Pairwise fun a b => a.listedBefore b = true :=
  List.pairwise_mergeSort listedBefore_trans listedBefore_total ts

theorem filter_sorted (ts : List Task) (createdAt : Instant) (id : String) :
    (sorted ts).filter (fun t => t.createdAt = createdAt ∧ t.id = id) =
      ts.filter fun t => t.createdAt = createdAt ∧ t.id = id := by
  have hclass : (ts.filter fun t => t.createdAt = createdAt ∧ t.id = id).Pairwise
      fun a b => a.listedBefore b = true := by
    refine List.pairwise_of_forall_mem_list fun a ha b hb => ?_
    simp only [List.mem_filter, decide_eq_true_eq] at ha hb
    obtain ⟨-, ha⟩ := ha
    obtain ⟨-, hb⟩ := hb
    rw [listedBefore_iff, ha.1, ha.2, hb.1, hb.2]
    exact .inr ⟨rfl, String.le_refl _⟩
  have hsub := List.sublist_mergeSort listedBefore_trans listedBefore_total hclass
    List.filter_sublist
  have hsub := hsub.filter fun t => t.createdAt = createdAt ∧ t.id = id
  simp only [List.filter_filter, Bool.and_self] at hsub
  exact (hsub.eq_of_length ((sorted_perm ts).filter _).length_eq.symm).symm

theorem map_sorted {f : Task → Task} (h : ∀ t, (f t).id = t.id ∧ (f t).createdAt = t.createdAt)
    (ts : List Task) : (sorted ts).map f = sorted (ts.map f) :=
  List.map_mergeSort fun a _ b _ => by simp [listedBefore, h]

theorem sorted_eq_of_perm {ts ts' : List Task} (hp : ts.Perm ts') (hid : (ts.map id).Nodup) :
    sorted ts = sorted ts' := by
  refine List.Perm.eq_of_pairwise ?_ (sorted_pairwise ts) (sorted_pairwise ts')
    ((sorted_perm ts).trans (hp.trans (sorted_perm ts').symm))
  intro a b ha hb hab hba
  have ha : a ∈ ts := (sorted_perm ts).mem_iff.1 ha
  have hb : b ∈ ts := hp.mem_iff.2 ((sorted_perm ts').mem_iff.1 hb)
  exact List.inj_on_of_nodup_map hid ha hb (id_eq_of_listedBefore hab hba)

end Snapshots.Task
