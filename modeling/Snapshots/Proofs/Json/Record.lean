import Snapshots.Json.Decode

/-! # Lists and records read back

A list of values that are read back is read back. A record that is written with a member for each
of its fields, as far as they have values, is read with these values, if no field has a name of
another.
-/

namespace Snapshots.Json

theorem mapM_readingsWith {α : Type} {decoder : Decoder α} {f : α → Json}
    (h : ∀ a, decoder (f a).reading = .ok a) (as : List α) :
    (readingsWith .closed (as.map f)).mapM decoder = .ok as := by
  induction as with
  | nil => rfl
  | cons a as ih =>
    rw [List.map_cons, readingsWith, List.mapM_cons, ih]
    simp only [h, bind, Except.bind]
    rfl

theorem Decoder.list_reading {α : Type} {decoder : Decoder α} {f : α → Json}
    (h : ∀ a, decoder (f a).reading = .ok a) (as : List α) :
    Decoder.list decoder (Json.array (as.map f)).reading = .ok as := by
  rw [reading, readingWith, Decoder.list, mapM_readingsWith h]
  rfl

def FieldRule.Apart (f g : FieldRule) : Prop :=
  f.hasName g.name = false ∧ g.hasName f.name = false

instance (f g : FieldRule) : Decidable (f.Apart g) :=
  inferInstanceAs (Decidable (_ ∧ _))

/-- A value that a field takes, or no value if it may be missing. -/
structure FieldRule.Takes (f : FieldRule) (v : Option Json) : Prop where
  present : f.required = true → v.isSome = true
  check : ∀ w, v = some w → f.check w.reading = .ok ()

@[simp] theorem FieldRule.hasName_name (f : FieldRule) : f.hasName f.name = true := by
  simp [hasName]

abbrev Slot := FieldRule × Option Json

def slotMembers (slots : List Slot) : List (String × Json) :=
  slots.filterMap fun s => s.2.map (s.1.name, ·)

theorem record_slots (slots : List Slot) :
    record (slots.map fun s => (s.1.name, s.2)) = .object (slotMembers slots) := by
  simp only [record, slotMembers, List.filterMap_map]
  rfl

theorem slotMembers_cons (s : Slot) (slots : List Slot) :
    slotMembers (s :: slots) = (s.2.map (s.1.name, ·)).toList ++ slotMembers slots := by
  obtain ⟨f, v⟩ := s
  cases v <;> simp [slotMembers]

namespace Reading

variable {rules : List FieldRule} {slots : List Slot} {f : FieldRule} {s : Slot}

theorem find?_hasName (h : rules.Pairwise FieldRule.Apart) (hf : f ∈ rules) :
    rules.find? (·.hasName f.name) = some f := by
  induction rules with
  | nil => cases hf
  | cons g rules ih =>
    obtain ⟨hg, h⟩ := List.pairwise_cons.1 h
    rcases List.mem_cons.1 hf with rfl | hf
    · simp
    · rw [List.find?_cons_of_neg (by simp [(hg f hf).1]), ih h hf]

theorem checkMembers_slots {seen : List String}
    (hfind : ∀ s ∈ slots, rules.find? (·.hasName s.1.name) = some s.1)
    (htakes : ∀ s ∈ slots, s.1.Takes s.2)
    (hapart : (slots.map Prod.fst).Pairwise FieldRule.Apart)
    (hseen : ∀ s ∈ slots, s.1.name ∉ seen) :
    checkMembers rules seen (memberReadingsWith .closed (slotMembers slots)) = .ok () := by
  induction slots generalizing seen with
  | nil => rfl
  | cons s slots ih =>
    obtain ⟨f, v⟩ := s
    rw [List.map_cons, List.pairwise_cons] at hapart
    obtain ⟨hf, hapart⟩ := hapart
    have hrest := fun seen => @ih seen (fun s hs => hfind s (by simp [hs]))
      (fun s hs => htakes s (by simp [hs])) hapart
    rw [slotMembers_cons]
    cases v with
    | none => exact hrest seen fun s hs => hseen s (by simp [hs])
    | some w =>
      have hnew : f.name ∉ seen := hseen (f, some w) (by simp)
      have hcheck : f.check w.reading = .ok () := (htakes (f, some w) (by simp)).check w rfl
      have hothers := hrest (f.name :: seen) fun s hs => by
        have hne : s.1.name ≠ f.name := by
          intro heq
          have := (hf s.1 (List.mem_map_of_mem hs)).1
          rw [heq, FieldRule.hasName_name] at this
          cases this
        simpa [hne] using hseen s (by simp [hs])
      simp only [Option.map_some, Option.toList_some, List.singleton_append, memberReadingsWith,
        checkMembers, sound, bind, Except.bind, hfind (f, some w) (by simp)]
      rw [hcheck]
      simpa [hnew] using hothers

theorem member?_slots_none (h : ∀ s ∈ slots, f.hasName s.1.name = false) :
    member? f (memberReadingsWith .closed (slotMembers slots)) = none := by
  induction slots with
  | nil => rfl
  | cons s slots ih =>
    obtain ⟨g, v⟩ := s
    have hrest := ih fun s hs => h s (by simp [hs])
    rw [slotMembers_cons]
    cases v with
    | none => exact hrest
    | some w =>
      have hg : f.hasName g.name = false := h (g, some w) (by simp)
      simpa [member?, memberReadingsWith, hg] using hrest

theorem member?_slots (hapart : (slots.map Prod.fst).Pairwise FieldRule.Apart) (hs : s ∈ slots) :
    member? s.1 (memberReadingsWith .closed (slotMembers slots)) = s.2.map reading := by
  induction slots with
  | nil => cases hs
  | cons t slots ih =>
    obtain ⟨g, v⟩ := t
    rw [List.map_cons, List.pairwise_cons] at hapart
    obtain ⟨hg, hapart⟩ := hapart
    rw [slotMembers_cons]
    rcases List.mem_cons.1 hs with rfl | hmem
    · cases v with
      | none => exact member?_slots_none fun s hs => (hg s.1 (List.mem_map_of_mem hs)).1
      | some w => simp [member?, memberReadingsWith]
    · have hne : s.1.hasName g.name = false := (hg s.1 (List.mem_map_of_mem hmem)).2
      have hrest := ih hapart hmem
      cases v with
      | none => exact hrest
      | some w => simpa [member?, memberReadingsWith, hne] using hrest

/-- A record is read with the values that it was written with. -/
theorem fields_record {rule : RecordRule} (hrule : rule.fields = slots.map Prod.fst)
    (hapart : rule.fields.Pairwise FieldRule.Apart) (htakes : ∀ s ∈ slots, s.1.Takes s.2) :
    fields rule (record (slots.map fun s => (s.1.name, s.2))).reading =
      .ok (slots.map fun s => s.2.map reading) := by
  have hcheck : checkMembers rule.fields [] (memberReadingsWith .closed (slotMembers slots)) =
      .ok () :=
    checkMembers_slots
      (fun s hs => find?_hasName hapart (hrule ▸ List.mem_map_of_mem hs)) htakes
      (hrule ▸ hapart) (by simp)
  have hvalues : (rule.fields.map fun field =>
      member? field (memberReadingsWith .closed (slotMembers slots))) =
        slots.map fun s => s.2.map reading := by
    rw [hrule, List.map_map]
    exact List.map_congr_left fun s hs => member?_slots (hrule ▸ hapart) hs
  have hnone : ((rule.fields.zip (slots.map fun s => s.2.map reading)).find? fun p =>
      p.1.required && p.2.isNone) = none := by
    rw [List.find?_eq_none, hrule, List.zip_map']
    intro p hp
    obtain ⟨s, hs, rfl⟩ := List.mem_map.1 hp
    have hpresent := (htakes s hs).present
    obtain ⟨f, v⟩ := s
    cases v with
    | none => simpa using hpresent
    | some w => simp
  rw [record_slots, reading, readingWith, fields, hcheck, hvalues]
  simp only [close, bind, Except.bind]
  rw [hnone]

end Reading

end Snapshots.Json
