import Snapshots.Cli.Command

/-! # What a command line comes to

What a reader is asked for is what one of its commands means, however the words are given.
-/

namespace Snapshots.Cli

variable {α : Type}

/-- What can be asked for in a tree of commands. -/
inductive Verb.Means : Verb α → α → Prop where

  | member {members : List (String × Verb α)} {name : String} {v : Verb α} {a : α} :
      (name, v) ∈ members → v.Means a → Means (.group members) a

  | command {options : List OptionRule} {operands : Nat} {meaning : Given → Option α} {g : Given}
      {a : α} : meaning g = some a → Means (.command options operands meaning) a

theorem Verb.Means.of_group {members : List (String × Verb α)} {a : α}
    (h : (Verb.group members).Means a) : ∃ name v, (name, v) ∈ members ∧ v.Means a := by
  cases h with
  | member hv ha => exact ⟨_, _, hv, ha⟩

theorem Verb.Means.of_member? {v v' : Verb α} {name : String} {a : α} (h : v.member? name = some v')
    (ha : v'.Means a) : v.Means a := by
  cases v with
  | group members =>
    obtain ⟨before, after, rfl, -⟩ := List.lookup_eq_some_iff.1 h
    exact .member List.mem_append_cons_self ha
  | command => cases h

namespace Reader

variable {r r' : Reader α} {a : α} {args : List String}

theorem means_of_finish (h : r.finish = .run a) : r.verb.Means a := by
  unfold finish at h
  split at h
  · rename_i options operands meaning _ hverb
    split at h
    · rw [hverb]
      cases hm : meaning r.given with
      | none =>
        rw [hm] at h
        cases h
      | some b =>
        rw [hm] at h
        cases h
        exact .command hm
    · cases h
  · cases h

theorem operand?_verb {s : String} (h : r.operand? s = some r') : r'.verb = r.verb := by
  unfold operand? at h
  split at h
  · cases h
  · split at h
    · cases h
      rfl
    · cases h

theorem option?_verb {name : String} {value : Option String} (h : r.option? name value = some r') :
    r'.verb = r.verb := by
  obtain ⟨o, -, h⟩ := Option.bind_eq_some_iff.1 h
  split at h
  · cases h
  · obtain ⟨g, -, rfl⟩ := Option.map_eq_some_iff.1 h
    rfl
  · cases h
    rfl
  · obtain ⟨g, -, rfl⟩ := Option.map_eq_some_iff.1 h
    rfl

theorem means_of_plain? {s : String} (h : r.plain? s = some r') (ha : r'.verb.Means a) :
    r.verb.Means a := by
  unfold plain? at h
  split at h
  · rename_i v hv
    cases h
    exact ha.of_member? hv
  · rwa [← operand?_verb h]

theorem foldlM_operand?_verb (h : args.foldlM operand? r = some r') : r'.verb = r.verb := by
  induction args generalizing r with
  | nil =>
    cases h
    rfl
  | cons arg args ih =>
    obtain ⟨r₁, h₁, h⟩ := Option.bind_eq_some_iff.1 h
    rw [ih h, operand?_verb h₁]

theorem means_of_rest (h : r.rest args = .run a) : r.verb.Means a := by
  unfold rest at h
  cases hr : args.foldlM operand? r with
  | none =>
    rw [hr] at h
    cases h
  | some r' =>
    rw [hr] at h
    rw [← foldlM_operand?_verb hr]
    exact means_of_finish h

theorem help_ne_run (v : Verb α) (names : List String) : help v names ≠ .run a := by
  induction names generalizing v with
  | nil => exact nofun
  | cons name names ih =>
    unfold help
    split
    · exact ih _
    · split
      · exact nofun
      · exact nofun

/-- Whatever is read from a command line, one of the commands means it. -/
theorem means_of_read (h : r.read args = .run a) : r.verb.Means a := by
  -- Only a plain word moves a reader in the tree, and only to a member of the group it is in.
  induction args generalizing r with
  | nil => exact means_of_finish h
  | cons arg args ih =>
    unfold read at h
    split at h
    · split at h
      · exact ih (r := { r with given := _, waiting := none }) h
      · cases h
    · cases h
    · exact means_of_rest h
    · split at h
      · cases h
      · split at h
        · cases h
        · split at h
          · rename_i r' hr
            rw [← option?_verb hr]
            exact ih h
          · cases h
    · split at h
      · cases h
      · split at h
        · cases h
        · cases h
    · split at h
      · exact absurd h (help_ne_run _ _)
      · split at h
        · rename_i r' hr
          exact means_of_plain? hr (ih h)
        · cases h

end Reader

end Snapshots.Cli
