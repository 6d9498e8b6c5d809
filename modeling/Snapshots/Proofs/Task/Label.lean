import Mathlib.Data.List.DropRight
import Snapshots.Task.Basic

/-! # Label values

Clusters take a label only if its value is short, has letters, digits and three marks in it, and has
no mark at either end. What a snapshot has for labels is such a value whatever its task is called,
and a text that is such a value already is taken as it is.
-/

namespace Snapshots

open Text Time

namespace Text

variable {p : Char → Bool} {cs : List Char}

theorem trimWhile_eq (p : Char → Bool) (cs : List Char) :
    trimWhile p cs = (cs.dropWhile p).rdropWhile p :=
  rfl

theorem trimWhile_sublist (p : Char → Bool) (cs : List Char) : (trimWhile p cs).Sublist cs :=
  (List.rdropWhile_prefix p _).sublist.trans (List.dropWhile_sublist p)

theorem getLast?_trimWhile : ∀ c ∈ (trimWhile p cs).getLast?, p c = false := by
  intro c hc
  obtain ⟨hne, rfl⟩ := List.mem_getLast?_eq_getLast hc
  exact Bool.eq_false_iff.2 (List.rdropWhile_last_not p (cs.dropWhile p) hne)

theorem head?_trimWhile : ∀ c ∈ (trimWhile p cs).head?, p c = false := by
  intro c hc
  have hprefix : trimWhile p cs <+: cs.dropWhile p := List.rdropWhile_prefix p _
  have hhead := List.head?_dropWhile_not p cs
  obtain ⟨rest, hrest⟩ := List.head?_eq_some_iff.1 hc
  obtain ⟨more, hmore⟩ := hprefix
  rw [← hmore, hrest] at hhead
  exact hhead

theorem trimWhile_eq_self_iff :
    trimWhile p cs = cs ↔ (∀ c ∈ cs.head?, p c = false) ∧ ∀ c ∈ cs.getLast?, p c = false := by
  constructor
  · intro h
    have hhead : ∀ c ∈ (trimWhile p cs).head?, p c = false := head?_trimWhile
    have hlast : ∀ c ∈ (trimWhile p cs).getLast?, p c = false := getLast?_trimWhile
    rw [h] at hhead hlast
    exact ⟨hhead, hlast⟩
  · rintro ⟨hhead, hlast⟩
    have hdrop : cs.dropWhile p = cs := by
      cases cs with
      | nil => rfl
      | cons c cs => exact List.dropWhile_cons_of_neg (by simpa using hhead c rfl)
    rw [trimWhile_eq, hdrop, List.rdropWhile_eq_self_iff]
    intro hne
    simpa using hlast _ (List.getLast?_eq_some_getLast hne)

end Text

def LabelLetter (c : Char) : Prop :=
  ('a' ≤ c ∧ c ≤ 'z') ∨ ('A' ≤ c ∧ c ≤ 'Z') ∨ ('0' ≤ c ∧ c ≤ '9')

/-- A value that clusters take for a label. -/
structure LabelValue (s : String) : Prop where
  length_le : s.length ≤ 63
  chars : ∀ c ∈ s.toList, LabelLetter c ∨ c = '-' ∨ c = '_' ∨ c = '.'
  head : ∀ c ∈ s.toList.head?, LabelLetter c
  last : ∀ c ∈ s.toList.getLast?, LabelLetter c

theorem isLabelEnd_iff {c : Char} : isLabelEnd c = true ↔ LabelLetter c := by
  have hupper : c.isUpper = true ↔ 'A' ≤ c ∧ c ≤ 'Z' := decide_eq_true_iff
  have hlower : c.isLower = true ↔ 'a' ≤ c ∧ c ≤ 'z' :=
    Bool.and_eq_true_iff.trans (and_congr decide_eq_true_iff decide_eq_true_iff)
  have hdigit : c.isDigit = true ↔ '0' ≤ c ∧ c ≤ '9' :=
    Bool.and_eq_true_iff.trans (and_congr decide_eq_true_iff decide_eq_true_iff)
  change ((c.isUpper || c.isLower) || c.isDigit) = true ↔ LabelLetter c
  rw [Bool.or_eq_true, Bool.or_eq_true, hupper, hlower, hdigit, LabelLetter]
  tauto

theorem isLabelChar_iff {c : Char} :
    isLabelChar c = true ↔ LabelLetter c ∨ c = '-' ∨ c = '_' ∨ c = '.' := by
  rw [← isLabelEnd_iff]
  simp [isLabelChar, isLabelEnd, or_assoc]

/-- The characters of a text with underscores in the place of those that no label may have, as many
as fit. -/
def labelChars (s : String) : List Char :=
  (s.toList.map fun c => if isLabelChar c then c else '_').take 63

theorem toList_labelValue (s : String) :
    (labelValue s).toList = trimWhile (fun c => !isLabelEnd c) (labelChars s) :=
  String.toList_ofList

theorem isLabelChar_of_mem_labelChars {s : String} {c : Char} (h : c ∈ labelChars s) :
    isLabelChar c = true := by
  obtain ⟨d, -, rfl⟩ := List.mem_map.1 (List.mem_of_mem_take h)
  split
  · assumption
  · decide

theorem labelChars_of_chars {s : String} (hlength : s.length ≤ 63)
    (hchars : ∀ c ∈ s.toList, isLabelChar c = true) : labelChars s = s.toList := by
  have hmap : (s.toList.map fun c => if isLabelChar c then c else '_') = s.toList := by
    rw [List.map_congr_left fun c hc => if_pos (hchars c hc), List.map_id']
  rw [labelChars, hmap]
  exact List.take_of_length_le (by rwa [String.length_toList])

theorem labelValue_spec (s : String) : LabelValue (labelValue s) := by
  have hsub : (labelValue s).toList.Sublist (labelChars s) :=
    toList_labelValue s ▸ trimWhile_sublist ..
  constructor
  · rw [← String.length_toList]
    exact hsub.length_le.trans (List.length_take_le ..)
  · exact fun c hc => isLabelChar_iff.1 (isLabelChar_of_mem_labelChars (hsub.subset hc))
  · rw [toList_labelValue]
    exact fun c hc => isLabelEnd_iff.1 (by simpa using head?_trimWhile c hc)
  · rw [toList_labelValue]
    exact fun c hc => isLabelEnd_iff.1 (by simpa using getLast?_trimWhile c hc)

theorem LabelValue.labelValue_eq {s : String} (h : LabelValue s) : labelValue s = s := by
  rw [← String.toList_inj, toList_labelValue,
    labelChars_of_chars h.length_le fun c hc => isLabelChar_iff.2 (h.chars c hc),
    trimWhile_eq_self_iff]
  constructor
  · exact fun c hc => by simpa using isLabelEnd_iff.2 (h.head c hc)
  · exact fun c hc => by simpa using isLabelEnd_iff.2 (h.last c hc)

/-- Every label of a snapshot is valid, however its task, the name and the creator are written. To
make a label value of a text a second time changes nothing, and the first time nothing exactly if
the text is a label value. -/
theorem Task.labels_valid :
    (∀ (t : Task) (snapshotName : String) (firedAt : Instant),
      ∀ l ∈ (t.spec snapshotName firedAt).labels, LabelValue l.2) ∧
    (∀ s, labelValue (labelValue s) = labelValue s) ∧ ∀ s, labelValue s = s ↔ LabelValue s := by
  refine ⟨fun t snapshotName firedAt => ?_, fun s => (labelValue_spec s).labelValue_eq, fun s => ?_⟩
  · have happ : labelValue Task.appLabel = Task.appLabel := by decide +kernel
    simp only [Task.spec, List.forall_mem_cons]
    refine ⟨happ ▸ labelValue_spec _, labelValue_spec _, labelValue_spec _, labelValue_spec _, ?_⟩
    exact fun l hl => absurd hl List.not_mem_nil
  · constructor
    · exact fun h => h ▸ labelValue_spec s
    · exact LabelValue.labelValue_eq

namespace Sample

def unlabeled : Task :=
  .ofDefinition ⟨"ночь-db.", "prod", "db-pvc", "fast", "0 0 * * * *", none, []⟩
    "alice@example.com" default

end Sample

/-- The labels of a snapshot of that task are valid, with other characters in the creator and
without the ends of the name. -/
theorem Task.labels_valid_unlabeled :
    (("created-by", "alice_example.com") ∈ (Sample.unlabeled.spec "s" default).labels ∧
      LabelValue "alice_example.com") ∧
    ("scheduled-task-name", "db") ∈ (Sample.unlabeled.spec "s" default).labels ∧
      LabelValue "db" := by
  have hcreator : ("created-by", "alice_example.com") ∈
      (Sample.unlabeled.spec "s" default).labels := by decide +kernel
  have hname : ("scheduled-task-name", "db") ∈ (Sample.unlabeled.spec "s" default).labels := by
    decide +kernel
  exact ⟨⟨hcreator, Task.labels_valid.1 _ _ _ _ hcreator⟩,
    hname, Task.labels_valid.1 _ _ _ _ hname⟩

end Snapshots
