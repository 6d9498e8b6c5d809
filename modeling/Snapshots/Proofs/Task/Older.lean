import Snapshots.Proofs.Json.Rephrased
import Snapshots.Proofs.Store.RoundTrip

/-! # Documents with older names

Two fields of tasks and definitions had other names once. A document with these names, in any order
and with members that nobody asks for, is read as one with the names of today, and a file of any
such documents is saved and loaded as the tasks that were read from it.
-/

namespace Snapshots

open Json

/-- The fields that had another name, with that name. -/
def olderNames : List (String × String) :=
  [("sourceVolumeName", "pvcName"), ("snapshotClassName", "volumeSnapshotClassName")]

/-- A text is an object of these members. -/
def Says (s : String) (ms : List Member) : Prop :=
  Reading.ofText s = (.object ms .closed, false)

/-- How records are read whatever names their documents use. -/
structure ReadsOlder {α : Type} (rule : RecordRule) (decode : Decoder α) : Prop where
  /-- The older names are names of the fields. -/
  older : ∀ p ∈ olderNames, ∃ f ∈ rule.fields, f.names = [p.1, p.2]
  /-- A document that says the same as one that is read is read as the same. -/
  rephrased : ∀ {s s' : String} {ms ms' : List Member} {a : α}, Says s ms → Says s' ms' →
    Rephrased rule.fields ms ms' →
    Reading.decodeText decode s = .ok a → Reading.decodeText decode s' = .ok a
  /-- A document with two names of a field is refused. -/
  refused : ∀ {s : String} {before after : List Member} {f : FieldRule} {k : String} {r : Reading},
    Says s (before ++ (.ok k, r) :: after) → f ∈ rule.fields → (∃ m ∈ before, f.Names m) →
    k ∈ f.names → ∃ e, Reading.decodeText decode s = .error e
  /-- The second of the names is what is wrong if nothing before it is. -/
  doubled : ∀ {s : String} {before after : List Member} {f : FieldRule} {k : String} {r : Reading},
    Says s (before ++ (.ok k, r) :: after) → f ∈ rule.fields → (∃ m ∈ before, f.Names m) →
    k ∈ f.names → Orderly rule.fields before →
    Reading.decodeText decode s = .error (.mismatch (.duplicateField f.name))

theorem decodeText_eq {α : Type} (decode : Decoder α) {s : String} {ms : List Member}
    (h : Says s ms) : Reading.decodeText decode s = decode (.object ms .closed) := by
  rw [Reading.decodeText, h]
  simp only [bind, Except.bind]
  cases decode (.object ms .closed) with
  | error e => rfl
  | ok a => rfl

section

variable {α : Type} {rule : RecordRule} {decode : Decoder α}
  {build : Reading.Fields → Except DecodeError α}

theorem decode_rephrased (hdecode : ∀ r, decode r = (Reading.fields rule r).bind build)
    (hd : rule.fields.Pairwise FieldRule.Distinct) {ms ms' : List Member} {a : α}
    (h : Rephrased rule.fields ms ms') (hread : decode (.object ms .closed) = .ok a) :
    decode (.object ms' .closed) = .ok a := by
  rw [hdecode] at hread ⊢
  cases hfields : Reading.fields rule (.object ms .closed) with
  | error e =>
    rw [hfields] at hread
    cases hread
  | ok vs =>
    rw [hfields] at hread
    rw [Reading.fields_of_rephrased hd h Ending.sound_closed hfields]
    exact hread

theorem readsOlder_of_fields (hdecode : ∀ r, decode r = (Reading.fields rule r).bind build)
    (hd : rule.fields.Pairwise FieldRule.Distinct)
    (holder : ∀ p ∈ olderNames, ∃ f ∈ rule.fields, f.names = [p.1, p.2]) :
    ReadsOlder rule decode where
  older := holder
  rephrased {s s' ms ms' a} hs hs' h hread := by
    rw [decodeText_eq decode hs] at hread
    rw [decodeText_eq decode hs']
    exact decode_rephrased hdecode hd h hread
  refused {s before after f k r} hs hf hbefore hk := by
    obtain ⟨e, he⟩ := (Reading.fields_doubled hd hf hbefore hk).1
    exact ⟨e, by rw [decodeText_eq decode hs, hdecode, he]; rfl⟩
  doubled {s before after f k r} hs hf hbefore hk ho := by
    rw [decodeText_eq decode hs, hdecode, (Reading.fields_doubled hd hf hbefore hk).2 ho]
    rfl

end

namespace Task

theorem rule_distinct : rule.fields.Pairwise FieldRule.Distinct := by
  decide

theorem decode_rephrased {ms ms' : List Member} {t : Task} (h : Rephrased rule.fields ms ms')
    (hread : decode (.object ms .closed) = .ok t) : decode (.object ms' .closed) = .ok t :=
  Snapshots.decode_rephrased (fun _ => rfl) rule_distinct h hread

theorem readsOlder : ReadsOlder rule decode := by
  refine readsOlder_of_fields (fun _ => rfl) rule_distinct ?_
  simp [olderNames, rule, FieldRule.names, FieldRule.of, FieldRule.orNamed, FieldRule.mayMiss]

end Task

theorem Definition.readsOlder : ReadsOlder Definition.rule Definition.decode := by
  refine readsOlder_of_fields (fun _ => rfl) (by decide) ?_
  simp [olderNames, rule, FieldRule.names, FieldRule.of, FieldRule.orNamed, FieldRule.mayMiss]

namespace Store

/-- An item of a task file says the same as another. -/
inductive RephrasedItem : Reading → Reading → Prop where
  | object {ms ms' : List Member} (h : Rephrased Task.rule.fields ms ms') :
      RephrasedItem (.object ms .closed) (.object ms' .closed)

theorem mapM_rephrased {items items' : List Reading} (h : List.Forall₂ RephrasedItem items items')
    {ts : List Task} (hread : items.mapM Task.decode = .ok ts) :
    items'.mapM Task.decode = .ok ts := by
  induction h generalizing ts with
  | nil => exact hread
  | cons h _ ih =>
    obtain ⟨h⟩ := h
    rw [List.mapM_cons] at hread ⊢
    rename_i items items' _ ms ms'
    cases ht : Task.decode (.object ms .closed) with
    | error e =>
      rw [ht] at hread
      cases hread
    | ok t =>
      rw [Task.decode_rephrased h ht]
      rw [ht] at hread
      cases hts : items.mapM Task.decode with
      | error e =>
        rw [hts] at hread
        cases hread
      | ok ts =>
        rw [hts] at hread
        rw [ih hts]
        exact hread

/-- A file whose tasks say the same as those of a file that is read holds the same tasks. -/
theorem parse_rephrased {c c' : Content} {items items' : List Reading}
    (hc : reading c = (.array items .closed, false))
    (hc' : reading c' = (.array items' .closed, false))
    (h : List.Forall₂ RephrasedItem items items')
    (hread : ∃ ts, items.mapM Task.decode = .ok ts) : parse c' = parse c := by
  obtain ⟨ts, hts⟩ := hread
  have hlist : ∀ {items : List Reading}, items.mapM Task.decode = .ok ts →
      Decoder.optional (Decoder.list Task.decode) (.array items .closed) = .ok (some ts) := by
    intro items h
    simp only [Decoder.optional, Decoder.list, h]
    rfl
  rw [parse, parse, hc, hc']
  simp only [hlist hts, hlist (mapM_rephrased h hts)]

theorem load_resaved {fails : Step → Bool} {process : Nat} {fs fs' : Files} {p : Path}
    (h : saveWith fails process fs p (load fs p) = (fs', .ok ())) :
    load fs' p = Task.sorted (load fs p) := by
  rw [load_eq_of_saveWith h]
  congr 1
  exact (List.map_congr_left fun t ht => kept_of_mem_load ht).trans (List.map_id _)

end Store

/-- Tasks and definitions are read alike under the older and the newer names of their fields, in any
order and between members that nobody asks for, and so are the tasks of a file. A document with two
names for a field is refused, as a field given twice if nothing before the second is wrong. What a
file was read as is saved and loaded again, sorted by creation and identity. -/
theorem older_documents_load :
    ReadsOlder Task.rule Task.decode ∧ ReadsOlder Definition.rule Definition.decode ∧
      (∀ {c c' : Content} {items items' : List Reading},
        Store.reading c = (.array items .closed, false) →
        Store.reading c' = (.array items' .closed, false) →
        List.Forall₂ Store.RephrasedItem items items' →
        (∃ ts, items.mapM Task.decode = .ok ts) → Store.parse c' = Store.parse c) ∧
      ∀ {fails : Store.Step → Bool} {process : Nat} {fs fs' : Files} {p : Path},
        Store.saveWith fails process fs p (Store.load fs p) = (fs', .ok ()) →
        Store.load fs' p = Task.sorted (Store.load fs p) ∧
          (Store.load fs' p).Perm (Store.load fs p) ∧
          (Store.load fs' p).Pairwise fun a b => a.listedBefore b = true := by
  refine ⟨Task.readsOlder, Definition.readsOlder, Store.parse_rephrased, ?_⟩
  intro fails process fs fs' p h
  rw [Store.load_resaved h]
  exact ⟨rfl, Task.sorted_perm _, Task.sorted_pairwise _⟩

namespace Older

def volume : FieldRule := (FieldRule.of "sourceVolumeName" Spec.text).orNamed "pvcName"

def snapshotClass : FieldRule :=
  (FieldRule.of "snapshotClassName" Spec.text).orNamed "volumeSnapshotClassName"

def task : Task where
  id := "a"
  name := "db"
  ns := "prod"
  sourceVolume := "db-pvc"
  snapshotClass := "fast"
  cron := "0 0 * * * *"
  enabled := true
  targets := []
  createdBy := ""
  createdAt := default
  updatedAt := default
  lastExecuted := none
  nextExecution := none

def front : List (String × Json) :=
  [("id", .string "a"), ("name", .string "db"), ("namespace", .string "prod")]

def back : List (String × Json) :=
  [("cronExpression", .string "0 0 * * * *"), ("enabled", .bool true),
    ("createdAt", (default : Time.Instant).toJson), ("updatedAt", (default : Time.Instant).toJson)]

def newer : List (String × Json) :=
  front ++ ("sourceVolumeName", .string "db-pvc") :: ("snapshotClassName", .string "fast") :: back

def older : List (String × Json) :=
  ("volumeSnapshotClassName", .string "fast") :: ("note", .array [.null]) ::
    (front ++ ("pvcName", .string "db-pvc") :: back)

def doubled : List (String × Json) :=
  [("pvcName", .string "a"), ("sourceVolumeName", .string "b")]

def mistyped : List (String × Json) :=
  [("id", .null), ("pvcName", .string "a"), ("sourceVolumeName", .string "b")]

def files : Files :=
  (Store.save 7 .blank Store.Sample.path [{ task with id := "b" }, task]).1

theorem says_toPretty (ms : List (String × Json)) (h : (Json.object ms).numberFree = true) :
    Says (Json.object ms).toPretty (memberReadingsWith .closed ms) :=
  Reading.ofText_toPretty h

theorem rephrased : Rephrased Task.rule.fields (memberReadingsWith .closed newer)
    (memberReadingsWith .closed older) := by
  have hvolume : volume ∈ Task.rule.fields := .tail _ (.tail _ (.tail _ (.head _)))
  have hclass : snapshotClass ∈ Task.rule.fields := .tail _ (.tail _ (.tail _ (.tail _ (.head _))))
  have hnote : ∀ f ∈ Task.rule.fields, "note" ∉ f.names := by decide
  have hvalue : (Json.array [.null]).reading.WellFormed :=
    .array (by simp [readingsWith, readingWith, Reading.WellFormed.null]) Ending.sound_closed
  let front := memberReadingsWith .closed front
  let back := memberReadingsWith .closed back
  let pvc : Member := (.ok "pvcName", .string (.ok "db-pvc"))
  let legacy : Member := (.ok "volumeSnapshotClassName", .string (.ok "fast"))
  have h₁ : Rephrased Task.rule.fields (memberReadingsWith .closed newer)
      (front ++ pvc :: (.ok "snapshotClassName", .string (.ok "fast")) :: back) :=
    .rename hvolume (by decide) (by decide) front _ _
  have h₂ : Rephrased Task.rule.fields
      (front ++ pvc :: (.ok "snapshotClassName", .string (.ok "fast")) :: back)
      (front ++ pvc :: legacy :: back) :=
    .rename hclass (by decide) (by decide) (front ++ [pvc]) back _
  have h₃ : Rephrased Task.rule.fields (front ++ pvc :: legacy :: back)
      ([legacy] ++ (front ++ pvc :: back)) := by
    refine .reorder ?_
    have hmiddle : ((front ++ [pvc]) ++ legacy :: back).Perm
        (legacy :: ((front ++ [pvc]) ++ back)) := List.perm_middle
    exact hmiddle
  exact ((h₁.trans h₂).trans h₃).trans (.add hnote hvalue [legacy] _)

end Older

/-- A task is read from a document with older names, also in a file; a definition with two names for
its volume is refused as such; and a file is saved and loaded again. -/
theorem older_documents_load_sample :
    Reading.decodeText Task.decode (Json.object Older.older).toPretty = .ok Older.task ∧
      Reading.decodeText Definition.decode (Json.object Older.doubled).toPretty =
        .error (.mismatch (.duplicateField "sourceVolumeName")) ∧
      Store.parse (.text (Json.array [.object Older.older]).toPretty) =
        Store.parse (.text (Json.array [.object Older.newer]).toPretty) ∧
      Store.load (Store.save 8 Older.files Store.Sample.path
          (Store.load Older.files Store.Sample.path)).1 Store.Sample.path =
        Task.sorted (Store.load Older.files Store.Sample.path) := by
  obtain ⟨htask, hdefinition, hparse, hload⟩ := older_documents_load
  have hnewer := Older.says_toPretty Older.newer (by decide)
  have hread : Task.decode (Json.object Older.newer).reading = .ok Older.task :=
    Task.decode_reading Older.task
  refine ⟨?_, ?_, ?_, ?_⟩
  · apply htask.rephrased hnewer (Older.says_toPretty Older.older (by decide)) Older.rephrased
    rw [decodeText_eq _ hnewer]
    exact hread
  · have hsays := Older.says_toPretty Older.doubled (by decide)
    have hpvc : ∃ m ∈ [(.ok "pvcName", .string (.ok "a"))], Older.volume.Names m :=
      ⟨_, .head _, FieldRule.names_ok.2 (by decide)⟩
    have hbefore := (Reading.checkMembers_eq_ok_iff (by decide)).1
      (rfl : Reading.checkMembers Definition.rule.fields []
        [(.ok "pvcName", .string (.ok "a"))] = .ok ())
    exact hdefinition.doubled hsays (.tail _ (.tail _ (.head _))) hpvc (by decide) hbefore.1
  · have hitems : [(Json.object Older.newer).reading].mapM Task.decode = .ok [Older.task] := by
      rw [List.mapM_cons, hread]
      rfl
    exact hparse (Reading.ofText_toPretty (by decide)) (Reading.ofText_toPretty (by decide))
      (.cons (.object Older.rephrased) .nil) ⟨_, hitems⟩
  · have hsaved : (Store.save 8 Older.files Store.Sample.path
        (Store.load Older.files Store.Sample.path)).2 = .ok () := rfl
    exact (hload (Prod.ext rfl hsaved)).1

/-- A field that is wrong before them hides that a field has two names. -/
theorem older_documents_mistyped :
    Says (Json.object Older.mistyped).toPretty [(.ok "id", .null),
        (.ok "pvcName", .string (.ok "a")), (.ok "sourceVolumeName", .string (.ok "b"))] ∧
      Reading.decodeText Task.decode (Json.object Older.mistyped).toPretty =
        .error (.mismatch (.wrongType .null "a string")) := by
  have hs := Older.says_toPretty Older.mistyped (by decide)
  refine ⟨hs, ?_⟩
  rw [decodeText_eq _ hs]
  rfl

end Snapshots
