import Mathlib.Data.List.Nodup
import Snapshots.Table

/-! # Tables with the same keys and values

Tables that give every key the same value differ only in the order of their entries, and tables with
the same keys have the same size.
-/

namespace Snapshots.Table

variable {κ ν μ : Type} [DecidableEq κ] {t t' : Table κ ν}

theorem get?_insert_eq_some_iff {k k' : κ} {v v' : ν} :
    (t.insert k v).get? k' = some v' ↔ k' = k ∧ v' = v ∨ k' ≠ k ∧ t.get? k' = some v' := by
  rw [get?_insert]
  by_cases h : k' = k
  · simp [h, eq_comm]
  · simp [h]

theorem perm_of_get?_eq (h : ∀ k, t.get? k = t'.get? k) : t.entries.Perm t'.entries := by
  refine (List.perm_ext_iff_of_nodup (.of_map _ t.nodup) (.of_map _ t'.nodup)).2 ?_
  rintro ⟨k, v⟩
  rw [mem_entries_iff, mem_entries_iff, h]

theorem values_perm_of_get?_eq (h : ∀ k, t.get? k = t'.get? k) : t.values.Perm t'.values :=
  (perm_of_get?_eq h).map Prod.snd

theorem nodup_map_values {f : ν → κ} (h : ∀ {k v}, t.get? k = some v → f v = k) :
    (t.values.map f).Nodup := by
  have hk : t.values.map f = t.keys := by
    rw [values, keys, List.map_map]
    refine List.map_congr_left ?_
    rintro ⟨k, v⟩ hm
    exact h ((t.mem_entries_iff k v).1 hm)
  rw [hk]
  exact t.nodup

theorem size_eq_of_contains_eq {t : Table κ ν} {t' : Table κ μ}
    (h : ∀ k, t.contains k = t'.contains k) : t.size = t'.size := by
  have hk : t.keys.Perm t'.keys := by
    refine (List.perm_ext_iff_of_nodup t.nodup t'.nodup).2 fun k => ?_
    change k ∈ t.keys ↔ k ∈ t'.keys
    rw [mem_keys_iff, mem_keys_iff, ← contains_iff, ← contains_iff, h]
  simpa [keys, size] using hk.length_eq

theorem put_of_not_mem {k : κ} {es : List (κ × ν)} (h : k ∉ es.map Prod.fst) (v : ν) :
    put k v es = es ++ [(k, v)] := by
  induction es with
  | nil => rfl
  | cons e es ih =>
    rw [List.map_cons, List.mem_cons, not_or] at h
    rw [put, if_neg fun heq => h.1 heq.symm, ih h.2]
    rfl

theorem entries_foldl_insert {t : Table κ ν} {es : List (κ × ν)}
    (h : ((t.entries ++ es).map Prod.fst).Nodup) :
    (es.foldl (fun t (k, v) => t.insert k v) t).entries = t.entries ++ es := by
  induction es generalizing t with
  | nil => simp
  | cons e es ih =>
    obtain ⟨k, v⟩ := e
    have hnew : k ∉ t.entries.map Prod.fst := by
      rw [List.map_append, List.nodup_append] at h
      exact fun hk => h.2.2 k hk k (by simp) rfl
    have hput : (t.insert k v).entries = t.entries ++ [(k, v)] := put_of_not_mem hnew v
    rw [List.foldl_cons, ih (by rw [hput, List.append_assoc]; exact h), hput, List.append_assoc]
    rfl

theorem entries_ofList {es : List (κ × ν)} (h : (es.map Prod.fst).Nodup) :
    (ofList es).entries = es :=
  entries_foldl_insert (t := empty) h

theorem lookup_keyed (key : ν → κ) (k : κ) (vs : List ν) :
    (vs.map fun v => (key v, v)).lookup k = vs.find? (key · = k) := by
  induction vs with
  | nil => rfl
  | cons v vs ih =>
    rw [List.map_cons, lookup_cons, ih]
    by_cases h : key v = k
    · rw [if_pos h.symm, List.find?_cons_of_pos (by simp [h])]
    · rw [if_neg (Ne.symm h), List.find?_cons_of_neg (by simp [h])]

end Snapshots.Table
