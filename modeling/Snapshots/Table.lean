/-! # Tables

Finite maps from keys to values, in the order in which the keys were first inserted. Each key
occurs once.
-/

namespace Snapshots

/-- A finite map as a list of pairs. -/
structure Table (κ ν : Type) where
  entries : List (κ × ν)
  nodup : (entries.map Prod.fst).Nodup

namespace Table

variable {κ ν : Type} [DecidableEq κ]

def empty : Table κ ν := ⟨[], by simp⟩

instance : Inhabited (Table κ ν) := ⟨empty⟩

def get? (t : Table κ ν) (k : κ) : Option ν :=
  t.entries.lookup k

def contains (t : Table κ ν) (k : κ) : Bool :=
  (t.get? k).isSome

def size (t : Table κ ν) : Nat :=
  t.entries.length

def keys (t : Table κ ν) : List κ :=
  t.entries.map Prod.fst

/-- The values, in the order in which their keys were inserted. -/
def values (t : Table κ ν) : List ν :=
  t.entries.map Prod.snd

/-- The pairs with the value of a key put in its place or, for a new key, at the end. -/
def put (k : κ) (v : ν) : List (κ × ν) → List (κ × ν)
  | [] => [(k, v)]
  | (k', v') :: es => if k' = k then (k, v) :: es else (k', v') :: put k v es

theorem map_fst_put (k : κ) (v : ν) (es : List (κ × ν)) :
    (put k v es).map Prod.fst =
      if k ∈ es.map Prod.fst then es.map Prod.fst else es.map Prod.fst ++ [k] := by
  induction es with
  | nil => simp [put]
  | cons e es ih =>
    obtain ⟨k', v'⟩ := e
    by_cases h : k' = k
    · subst h
      simp [put]
    · simp only [put, if_neg h, List.map_cons, ih, List.mem_cons]
      have h' : k ≠ k' := fun e => h e.symm
      by_cases hm : k ∈ es.map Prod.fst <;> simp [hm, h']

def insert (t : Table κ ν) (k : κ) (v : ν) : Table κ ν :=
  ⟨put k v t.entries, by
    rw [map_fst_put]
    split
    · exact t.nodup
    · rename_i h
      refine List.nodup_append.2 ⟨t.nodup, by simp, ?_⟩
      intro a ha b hb
      have : b = k := by simpa using hb
      subst this
      intro e
      exact h (e ▸ ha)⟩

def erase (t : Table κ ν) (k : κ) : Table κ ν :=
  ⟨t.entries.filter fun e => e.1 ≠ k,
    t.nodup.sublist (List.filter_sublist.map Prod.fst)⟩

/-- The table with a value for every key of a list, later pairs winning. -/
def ofList (es : List (κ × ν)) : Table κ ν :=
  es.foldl (fun t (k, v) => t.insert k v) empty

def mapValues {μ : Type} (t : Table κ ν) (f : κ → ν → μ) : Table κ μ :=
  ⟨t.entries.map fun (k, v) => (k, f k v), by
    have h : (t.entries.map fun (k, v) => (k, f k v)).map Prod.fst = t.entries.map Prod.fst := by
      simp [List.map_map, Function.comp_def]
    rw [h]
    exact t.nodup⟩

theorem lookup_cons (k a : κ) (b : ν) (es : List (κ × ν)) :
    ((a, b) :: es).lookup k = if k = a then some b else es.lookup k := by
  by_cases h : k = a
  · simp [h]
  · have hb : (k == a) = false := by simp [h]
    simp [List.lookup_cons, hb, h]

theorem lookup_put (k k' : κ) (v : ν) (es : List (κ × ν)) :
    (put k v es).lookup k' = if k' = k then some v else es.lookup k' := by
  induction es with
  | nil => simp [put, lookup_cons]
  | cons e es ih =>
    obtain ⟨a, b⟩ := e
    by_cases h : a = k
    · subst h
      by_cases h' : k' = a <;> simp [put, lookup_cons, h']
    · by_cases h' : k' = a
      · subst h'
        simp [put, h]
      · simp [put, h, lookup_cons, h', ih]

@[simp] theorem get?_empty (k : κ) : (empty : Table κ ν).get? k = none := rfl

theorem get?_insert (t : Table κ ν) (k k' : κ) (v : ν) :
    (t.insert k v).get? k' = if k' = k then some v else t.get? k' :=
  lookup_put k k' v t.entries

@[simp] theorem get?_insert_self (t : Table κ ν) (k : κ) (v : ν) :
    (t.insert k v).get? k = some v := by
  simp [get?_insert]

theorem lookup_filter_ne (k k' : κ) (es : List (κ × ν)) :
    (es.filter fun e => e.1 ≠ k).lookup k' = if k' = k then none else es.lookup k' := by
  induction es with
  | nil => simp
  | cons e es ih =>
    obtain ⟨a, b⟩ := e
    by_cases ha : a = k
    · rw [List.filter_cons_of_neg (by simp [ha]), ih, lookup_cons]
      subst ha
      split <;> rfl
    · rw [List.filter_cons_of_pos (by simp [ha]), lookup_cons, lookup_cons, ih]
      by_cases h' : k' = a
      · simp [h', ha]
      · simp [h']

theorem get?_erase (t : Table κ ν) (k k' : κ) :
    (t.erase k).get? k' = if k' = k then none else t.get? k' :=
  lookup_filter_ne k k' t.entries

@[simp] theorem get?_erase_self (t : Table κ ν) (k : κ) : (t.erase k).get? k = none := by
  simp [get?_erase]

theorem mem_entries_iff (t : Table κ ν) (k : κ) (v : ν) :
    (k, v) ∈ t.entries ↔ t.get? k = some v := by
  obtain ⟨es, hn⟩ := t
  simp only [get?]
  induction es with
  | nil => simp
  | cons e es ih =>
    obtain ⟨a, b⟩ := e
    have hn' := List.nodup_cons.1 hn
    by_cases h : k = a
    · subst h
      have hk : (k, v) ∉ es := fun hm => hn'.1 (List.mem_map.2 ⟨_, hm, rfl⟩)
      simp [hk, eq_comm]
    · simp [lookup_cons, h, ih hn'.2]

theorem contains_iff (t : Table κ ν) (k : κ) : t.contains k = true ↔ ∃ v, t.get? k = some v := by
  simp [contains, Option.isSome_iff_exists]

theorem lookup_map {μ : Type} (f : κ → ν → μ) (k : κ) (es : List (κ × ν)) :
    (es.map fun (k, v) => (k, f k v)).lookup k = (es.lookup k).map (f k) := by
  induction es with
  | nil => rfl
  | cons e es ih =>
    obtain ⟨a, b⟩ := e
    simp only [List.map_cons, lookup_cons, ih]
    split
    · rename_i h
      simp [h]
    · rfl

@[simp] theorem get?_mapValues {μ : Type} (t : Table κ ν) (f : κ → ν → μ) (k : κ) :
    (t.mapValues f).get? k = (t.get? k).map (f k) :=
  lookup_map f k t.entries

theorem mem_keys_iff (t : Table κ ν) (k : κ) : k ∈ t.keys ↔ ∃ v, t.get? k = some v := by
  simp [keys, ← mem_entries_iff]

theorem mem_values_iff (t : Table κ ν) (v : ν) : v ∈ t.values ↔ ∃ k, t.get? k = some v := by
  simp [values, ← mem_entries_iff]

end Table

end Snapshots
