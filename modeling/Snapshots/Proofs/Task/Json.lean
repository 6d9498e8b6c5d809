import Snapshots.Proofs.Json.Record
import Snapshots.Proofs.Json.Text
import Snapshots.Proofs.Time.Rfc3339
import Snapshots.Task.Json

/-! # Tasks read back

The value of a task is read as the task. Fields that are left out when they are empty get their
defaults.
-/

namespace Snapshots

open Json Time
open Json.Reading (Fields)

namespace Json.FieldRule

variable {α : Type} {f : FieldRule} {v : Option Json}

theorem takes_of {name : String} {decoder : Decoder α} {v : Json} {a : α}
    (h : decoder v.reading = .ok a) : (FieldRule.of name decoder).Takes (some v) where
  present _ := rfl
  check w hw := by
    cases hw
    change (decoder v.reading).map (fun _ => ()) = .ok ()
    rw [h]
    rfl

theorem Takes.orNamed (h : f.Takes v) (name : String) : (f.orNamed name).Takes v :=
  ⟨h.present, h.check⟩

theorem Takes.mayMiss (h : ∀ w, v = some w → f.Takes (some w)) : f.mayMiss.Takes v where
  present hr := by cases hr
  check w hw := (h w hw).check w rfl

end Json.FieldRule

@[simp] theorem Spec.text_reading (s : String) : Spec.text (Json.string s).reading = .ok s := rfl

@[simp] theorem Json.Decoder.bool_reading (b : Bool) :
    Decoder.bool (Json.bool b).reading = .ok b := rfl

@[simp] theorem Json.Decoder.strings_reading (ss : List String) :
    Decoder.list Spec.text (Json.strings ss).reading = .ok ss :=
  Decoder.list_reading Spec.text_reading ss

@[simp] theorem Time.Instant.decode_reading (t : Instant) :
    Instant.decode t.toJson.reading = .ok t := by
  have h : Decoder.string "an RFC 3339 formatted date and time string" t.toJson.reading =
      .ok t.toText := rfl
  simp only [Instant.decode, h, bind, Except.bind, Instant.ofText_toText]

@[simp] theorem Time.Instant.optional_decode_reading (t : Instant) :
    Decoder.optional Instant.decode t.toJson.reading = .ok (some t) := by
  have h : Decoder.optional Instant.decode t.toJson.reading =
      (Instant.decode t.toJson.reading).map some := rfl
  rw [h, Instant.decode_reading]
  rfl

namespace Task

def values (t : Task) : List (Option Json) :=
  [some (.string t.id), some (.string t.name), some (.string t.ns), some (.string t.sourceVolume),
    some (.string t.snapshotClass), some (.string t.cron), some (.bool t.enabled),
    if t.targets = [] then none else some (.strings t.targets),
    if t.createdBy = "" then none else some (.string t.createdBy),
    some t.createdAt.toJson, some t.updatedAt.toJson, t.lastExecuted.map Instant.toJson,
    t.nextExecution.map Instant.toJson]

def slots (t : Task) : List Slot :=
  rule.fields.zip t.values

theorem toJson_eq (t : Task) : t.toJson = record (t.slots.map fun s => (s.1.name, s.2)) :=
  rfl

theorem rule_apart : rule.fields.Pairwise FieldRule.Apart := by
  decide

theorem slots_take (t : Task) : ∀ s ∈ t.slots, s.1.Takes s.2 := by
  have htext : ∀ name s, (FieldRule.of name Spec.text).Takes (some (.string s)) :=
    fun _ s => FieldRule.takes_of (Spec.text_reading s)
  have hlast : ∀ name (last : Option Instant),
      ((FieldRule.of name (Decoder.optional Instant.decode)).mayMiss).Takes
        (last.map Instant.toJson) := by
    intro name last
    refine .mayMiss fun w hw => ?_
    obtain ⟨i, -, rfl⟩ := Option.map_eq_some_iff.1 hw
    exact FieldRule.takes_of i.optional_decode_reading
  simp only [slots, rule, values, List.zip_cons_cons, List.zip_nil_left, List.forall_mem_cons]
  refine ⟨htext _ _, htext _ _, htext _ _, (htext _ _).orNamed _, (htext _ _).orNamed _, htext _ _,
    .mayMiss fun w hw => ?_, .mayMiss fun w hw => ?_, .mayMiss fun w hw => ?_,
    FieldRule.takes_of (Instant.decode_reading _), FieldRule.takes_of (Instant.decode_reading _),
    hlast _ _, hlast _ _, by simp⟩
  · cases hw
    exact FieldRule.takes_of (Decoder.bool_reading _)
  · split at hw <;> cases hw
    exact FieldRule.takes_of (Decoder.strings_reading _)
  · split at hw <;> cases hw
    exact htext _ _

/-- The value of a task is read as the task. -/
theorem decode_reading (t : Task) : decode t.toJson.reading = .ok t := by
  have hfields : Reading.fields rule t.toJson.reading = .ok (t.values.map (·.map reading)) := by
    rw [toJson_eq, Reading.fields_record rfl rule_apart t.slots_take]
    rfl
  have htargets : Fields.getD (t.values.map (·.map reading)) 7 (Decoder.list Spec.text) [] =
      .ok t.targets := by
    by_cases h : t.targets = [] <;> simp [Fields.getD, values, h]
  have hcreator : Fields.getD (t.values.map (·.map reading)) 8 Spec.text "" = .ok t.createdBy := by
    by_cases h : t.createdBy = "" <;> simp [Fields.getD, values, h]
  have hlast : Fields.getD (t.values.map (·.map reading)) 11 (Decoder.optional Instant.decode)
      none = .ok t.lastExecuted := by
    cases h : t.lastExecuted <;> simp [Fields.getD, values, h]
  have hnext : Fields.getD (t.values.map (·.map reading)) 12 (Decoder.optional Instant.decode)
      none = .ok t.nextExecution := by
    cases h : t.nextExecution <;> simp [Fields.getD, values, h]
  simp only [decode, hfields, htargets, hcreator, hlast, hnext, bind, Except.bind]
  simp [Fields.get, Fields.getD, values, pure, Except.pure]

theorem numberFree_toJson (t : Task) : t.toJson.numberFree = true := by
  refine numberFree_record ?_
  simp [numberFree, numberFree_strings, Instant.toJson]

end Task

end Snapshots
