import Mathlib.Data.List.Pairwise
import Snapshots.Proofs.Json.Record

/-! # Members of an object

An object is read as a record if its members are in order: each goes to a field that takes its
value, or to none and can be passed over, and no two go to one field. What is read then depends
neither on the order of the members nor on which of its names a field is given.
-/

namespace Snapshots.Json

abbrev Member := Except Fault String × Reading

def Ending.Sound (ending : Ending) : Prop :=
  ∀ cut, ending ≠ .broken cut

theorem Ending.sound_closed : Ending.Sound .closed := fun _ => nofun

namespace Reading

/-! ### Values that can be passed over -/

/-- A value whose text makes sense to its end. A string or number in it may be none that can be
represented. -/
inductive WellFormed : Reading → Prop where
  | null : WellFormed .null
  | bool (b : Bool) : WellFormed (.bool b)
  | number (n : Except Fault Number) : WellFormed (.number n)
  | string (s : Except Fault String) : WellFormed (.string s)
  | array {items : List Reading} {ending : Ending} (h : ∀ r ∈ items, WellFormed r)
      (he : ending.Sound) : WellFormed (.array items ending)
  | object {members : List Member} {ending : Ending} (h : ∀ m ∈ members, WellFormed m.2)
      (he : ending.Sound) : WellFormed (.object members ending)

theorem skipEnding_eq_ok_iff {ending : Ending} :
    skipEnding ending = .ok () ↔ ending.Sound := by
  cases ending with
  | closed => exact ⟨fun _ => nofun, fun _ => rfl⟩
  | whole => exact ⟨fun _ => nofun, fun _ => rfl⟩
  | broken cut => exact ⟨nofun, fun h => absurd rfl (h cut)⟩

mutual

theorem wellFormed_of_skip : ∀ {r : Reading}, r.skip = .ok () → r.WellFormed
  | .null, _ => .null
  | .bool b, _ => .bool b
  | .number n, _ => .number n
  | .string s, _ => .string s
  | .array items ending, h => by
    simp only [skip, bind, Except.bind] at h
    split at h
    · cases h
    · rename_i hitems
      exact .array (wellFormed_of_skipItems hitems) (skipEnding_eq_ok_iff.1 h)
  | .object members ending, h => by
    simp only [skip, bind, Except.bind] at h
    split at h
    · cases h
    · rename_i hmembers
      exact .object (wellFormed_of_skipMembers hmembers) (skipEnding_eq_ok_iff.1 h)

theorem wellFormed_of_skipItems : ∀ {rs : List Reading}, skipItems rs = .ok () →
    ∀ r ∈ rs, r.WellFormed
  | [], _ => fun r hr => by cases hr
  | r :: rs, h => by
    simp only [skipItems, bind, Except.bind] at h
    split at h
    · cases h
    · rename_i hr
      exact List.forall_mem_cons.2 ⟨wellFormed_of_skip hr, wellFormed_of_skipItems h⟩

theorem wellFormed_of_skipMembers : ∀ {ms : List Member}, skipMembers ms = .ok () →
    ∀ m ∈ ms, m.2.WellFormed
  | [], _ => fun m hm => by cases hm
  | (k, r) :: ms, h => by
    simp only [skipMembers, bind, Except.bind] at h
    split at h
    · cases h
    · rename_i hr
      exact List.forall_mem_cons.2 ⟨wellFormed_of_skip hr, wellFormed_of_skipMembers h⟩

end

theorem skipItems_eq_ok {rs : List Reading} (h : ∀ r ∈ rs, r.skip = .ok ()) :
    skipItems rs = .ok () := by
  induction rs with
  | nil => rfl
  | cons r rs ih =>
    rw [List.forall_mem_cons] at h
    simp only [skipItems, h.1, ih h.2, bind, Except.bind]

theorem skipMembers_eq_ok {ms : List Member} (h : ∀ m ∈ ms, m.2.skip = .ok ()) :
    skipMembers ms = .ok () := by
  induction ms with
  | nil => rfl
  | cons m ms ih =>
    obtain ⟨k, r⟩ := m
    rw [List.forall_mem_cons] at h
    simp only [skipMembers, h.1, ih h.2, bind, Except.bind]

theorem skip_eq_ok_iff {r : Reading} : r.skip = .ok () ↔ r.WellFormed := by
  constructor
  · exact wellFormed_of_skip
  · intro h
    induction h with
    | null => rfl
    | bool => rfl
    | number => rfl
    | string => rfl
    | array h he ih =>
      simp only [skip, skipItems_eq_ok ih, bind, Except.bind]
      exact skipEnding_eq_ok_iff.2 he
    | object h he ih =>
      simp only [skip, skipMembers_eq_ok ih, bind, Except.bind]
      exact skipEnding_eq_ok_iff.2 he

end Reading

/-! ### The names of fields -/

namespace FieldRule

def names (f : FieldRule) : List String :=
  f.name :: f.aliases

theorem hasName_iff {f : FieldRule} {k : String} : f.hasName k = true ↔ k ∈ f.names := by
  rw [hasName, names, Bool.or_eq_true, beq_iff_eq, List.contains_iff_mem, List.mem_cons,
    eq_comm]

def Distinct (f g : FieldRule) : Prop :=
  ∀ k ∈ f.names, k ∉ g.names

instance (f g : FieldRule) : Decidable (f.Distinct g) :=
  inferInstanceAs (Decidable (∀ k ∈ f.names, k ∉ g.names))

def Names (f : FieldRule) (m : Member) : Prop :=
  ∃ k ∈ f.names, m.1 = .ok k

@[simp] theorem names_ok {f : FieldRule} {k : String} {r : Reading} :
    f.Names (.ok k, r) ↔ k ∈ f.names := by
  constructor
  · rintro ⟨k', hk', heq⟩
    cases heq
    exact hk'
  · exact fun hk => ⟨k, hk, rfl⟩

theorem name_mem_names (f : FieldRule) : f.name ∈ f.names :=
  List.mem_cons_self

theorem eq_of_mem_names {rules : List FieldRule} (h : rules.Pairwise Distinct) {f g : FieldRule}
    (hf : f ∈ rules) (hg : g ∈ rules) {k : String} (hkf : k ∈ f.names) (hkg : k ∈ g.names) :
    f = g := by
  by_contra hne
  have hsymm : Std.Symm Distinct := ⟨fun f g h k hk hk' => h k hk' hk⟩
  exact h.forall hf hg hne k hkf hkg

theorem of_find?_hasName {rules : List FieldRule} {f : FieldRule} {k : String}
    (h : rules.find? (·.hasName k) = some f) : f ∈ rules ∧ k ∈ f.names := by
  have hname : f.hasName k = true := by simpa using List.find?_some h
  exact ⟨List.mem_of_find?_eq_some h, hasName_iff.1 hname⟩

theorem of_find?_hasName_none {rules : List FieldRule} {k : String}
    (h : rules.find? (·.hasName k) = none) : ∀ f ∈ rules, k ∉ f.names :=
  fun f hf hk => List.find?_eq_none.1 h f hf (hasName_iff.2 hk)

theorem find?_hasName_of_mem {rules : List FieldRule} (h : rules.Pairwise Distinct)
    {f : FieldRule} (hf : f ∈ rules) {k : String} (hk : k ∈ f.names) :
    rules.find? (·.hasName k) = some f := by
  cases hfind : rules.find? (·.hasName k) with
  | none => exact absurd hk (of_find?_hasName_none hfind f hf)
  | some g =>
    obtain ⟨hg, hkg⟩ := of_find?_hasName hfind
    rw [eq_of_mem_names h hf hg hk hkg]

end FieldRule

/-! ### Members in order -/

variable {rules : List FieldRule} {ms ms' : List Member} {seen : List String} {f : FieldRule}

/-- A member that is in order on its own: a field takes its value, or no field has its name and it
can be passed over. -/
structure Member.Sound (rules : List FieldRule) (m : Member) : Prop where
  key : ∃ k, m.1 = .ok k
  check : ∀ f ∈ rules, f.Names m → f.check m.2 = .ok ()
  skip : (∀ f ∈ rules, ¬ f.Names m) → m.2.WellFormed

/-- Members that are in order, no two of them for one field. -/
structure Orderly (rules : List FieldRule) (ms : List Member) : Prop where
  sound : ∀ m ∈ ms, m.Sound rules
  once : ms.Pairwise fun a b => ∀ f ∈ rules, f.Names a → ¬ f.Names b

namespace Member

variable {k : String} {r : Reading}

theorem sound_unknown_iff (h : ∀ f ∈ rules, k ∉ f.names) :
    Member.Sound rules (.ok k, r) ↔ r.WellFormed := by
  constructor
  · intro hs
    exact hs.skip fun f hf hn => h f hf (FieldRule.names_ok.1 hn)
  · intro hr
    exact ⟨⟨k, rfl⟩, fun f hf hn => absurd (FieldRule.names_ok.1 hn) (h f hf), fun _ => hr⟩

theorem forall_names_iff (hd : rules.Pairwise FieldRule.Distinct) (hf : f ∈ rules)
    (hk : k ∈ f.names) {q : FieldRule → Prop} :
    (∀ g ∈ rules, g.Names (.ok k, r) → q g) ↔ q f := by
  constructor
  · intro h
    exact h f hf (FieldRule.names_ok.2 hk)
  · intro hq g hg hn
    rwa [FieldRule.eq_of_mem_names hd hg hf (FieldRule.names_ok.1 hn) hk]

theorem sound_known_iff (hd : rules.Pairwise FieldRule.Distinct) (hf : f ∈ rules)
    (hk : k ∈ f.names) : Member.Sound rules (.ok k, r) ↔ f.check r = .ok () := by
  constructor
  · intro hs
    exact hs.check f hf (FieldRule.names_ok.2 hk)
  · intro hcheck
    exact ⟨⟨k, rfl⟩, (forall_names_iff hd hf hk).2 hcheck,
      fun hnone => absurd (FieldRule.names_ok.2 hk) (hnone f hf)⟩

end Member

def Unseen (rules : List FieldRule) (seen : List String) (ms : List Member) : Prop :=
  ∀ m ∈ ms, ∀ f ∈ rules, f.Names m → f.name ∉ seen

theorem unseen_nil (rules : List FieldRule) (ms : List Member) : Unseen rules [] ms :=
  fun _ _ _ _ _ => List.not_mem_nil

theorem unseen_cons_iff (hd : rules.Pairwise FieldRule.Distinct) (hf : f ∈ rules) :
    Unseen rules (f.name :: seen) ms ↔ (∀ m ∈ ms, ¬ f.Names m) ∧ Unseen rules seen ms := by
  constructor
  · intro h
    constructor
    · intro m hm hn
      exact h m hm f hf hn List.mem_cons_self
    · intro m hm g hg hn hmem
      exact h m hm g hg hn (List.mem_cons_of_mem _ hmem)
  · rintro ⟨hnew, hseen⟩ m hm g hg hn hmem
    rcases List.mem_cons.1 hmem with hname | hmem
    · have hgf : g = f :=
        FieldRule.eq_of_mem_names hd hg hf g.name_mem_names (hname ▸ f.name_mem_names)
      exact hnew m hm (hgf ▸ hn)
    · exact hseen m hm g hg hn hmem

namespace Orderly

theorem cons_iff {m : Member} : Orderly rules (m :: ms) ↔
    m.Sound rules ∧ Orderly rules ms ∧ ∀ f ∈ rules, f.Names m → ∀ m' ∈ ms, ¬ f.Names m' := by
  constructor
  · rintro ⟨hs, ho⟩
    rw [List.forall_mem_cons] at hs
    rw [List.pairwise_cons] at ho
    exact ⟨hs.1, ⟨hs.2, ho.2⟩, fun f hf hn m' hm' => ho.1 m' hm' f hf hn⟩
  · rintro ⟨hm, ⟨hs, ho⟩, hnew⟩
    exact ⟨List.forall_mem_cons.2 ⟨hm, hs⟩,
      List.pairwise_cons.2 ⟨fun m' hm' f hf hn => hnew f hf hn m' hm', ho⟩⟩

theorem symm_once (rules : List FieldRule) :
    Std.Symm fun a b : Member => ∀ f ∈ rules, f.Names a → ¬ f.Names b :=
  ⟨fun _ _ h f hf ha hb => h f hf hb ha⟩

theorem eq_of_names (ho : Orderly rules ms) (hf : f ∈ rules) {m m' : Member} (hm : m ∈ ms)
    (hn : f.Names m) (hm' : m' ∈ ms) (hn' : f.Names m') : m = m' := by
  by_contra hne
  have := symm_once rules
  exact ho.once.forall hm hm' hne f hf hn hn'

theorem perm (hp : ms.Perm ms') (ho : Orderly rules ms) : Orderly rules ms' where
  sound m hm := ho.sound m (hp.mem_iff.2 hm)
  once := by
    have hsymm := (symm_once rules).symm
    exact (hp.pairwise_iff fun {a b} => hsymm a b).1 ho.once

end Orderly

namespace Reading

theorem bind_unit_eq_ok_iff {ε α : Type} {x : Except ε Unit} {y : Except ε α} {a : α} :
    (x.bind fun _ => y) = .ok a ↔ x = .ok () ∧ y = .ok a := by
  cases x with
  | error e => simp [Except.bind]
  | ok u => simp [Except.bind]

theorem checkMembers_unknown {k : String} {r : Reading} (h : rules.find? (·.hasName k) = none) :
    checkMembers rules seen ((.ok k, r) :: ms) =
      (sound r.skip).bind fun _ => checkMembers rules seen ms := by
  simp only [checkMembers, sound, bind, Except.bind, h]

theorem checkMembers_known {k : String} {r : Reading} (h : rules.find? (·.hasName k) = some f) :
    checkMembers rules seen ((.ok k, r) :: ms) =
      if f.name ∈ seen then .error (.mismatch (.duplicateField f.name))
      else (f.check r).bind fun _ => checkMembers rules (f.name :: seen) ms := by
  simp only [checkMembers, sound, bind, Except.bind, h, List.contains_iff_mem]

theorem sound_eq_ok_iff {x : Except Fault Unit} : sound x = .ok () ↔ x = .ok () := by
  cases x <;> simp [sound]

/-- Going through members succeeds if they are in order and none is for a field met before. -/
theorem checkMembers_eq_ok_iff (hd : rules.Pairwise FieldRule.Distinct) :
    checkMembers rules seen ms = .ok () ↔ Orderly rules ms ∧ Unseen rules seen ms := by
  induction ms generalizing seen with
  | nil =>
    constructor
    · intro
      exact ⟨⟨by simp, .nil⟩, by simp [Unseen]⟩
    · intro
      rfl
  | cons m ms ih =>
    obtain ⟨key, r⟩ := m
    rw [Orderly.cons_iff, Unseen, List.forall_mem_cons, ← Unseen]
    cases key with
    | error e =>
      constructor
      · intro h
        cases h
      · rintro ⟨⟨⟨⟨k, hk⟩, -, -⟩, -, -⟩, -⟩
        cases hk
    | ok k =>
      cases hfind : rules.find? (·.hasName k) with
      | none =>
        have hnone := FieldRule.of_find?_hasName_none hfind
        have hskip : ∀ (q : FieldRule → Prop), ∀ f ∈ rules, f.Names (.ok k, r) → q f :=
          fun q f hf hn => absurd (FieldRule.names_ok.1 hn) (hnone f hf)
        rw [checkMembers_unknown hfind, bind_unit_eq_ok_iff, sound_eq_ok_iff, skip_eq_ok_iff, ih,
          Member.sound_unknown_iff hnone]
        constructor
        · rintro ⟨hr, ho, hseen⟩
          exact ⟨⟨hr, ho, hskip _⟩, hskip _, hseen⟩
        · rintro ⟨⟨hr, ho, -⟩, -, hseen⟩
          exact ⟨hr, ho, hseen⟩
      | some f =>
        obtain ⟨hf, hk⟩ := FieldRule.of_find?_hasName hfind
        rw [checkMembers_known hfind, Member.sound_known_iff hd hf hk,
          Member.forall_names_iff hd hf hk, Member.forall_names_iff hd hf hk]
        by_cases hold : f.name ∈ seen
        · simp [hold]
        · rw [if_neg hold, bind_unit_eq_ok_iff, ih, unseen_cons_iff hd hf]
          constructor
          · rintro ⟨hcheck, ho, hnew, hseen⟩
            exact ⟨⟨hcheck, ho, hnew⟩, hold, hseen⟩
          · rintro ⟨⟨hcheck, ho, hnew⟩, -, hseen⟩
            exact ⟨hcheck, ho, hnew, hseen⟩

theorem checkMembers_doubled (hd : rules.Pairwise FieldRule.Distinct) {before after : List Member}
    {k : String} {r : Reading} (hok : checkMembers rules seen before = .ok ()) (hf : f ∈ rules)
    (hk : k ∈ f.names) (hmet : f.name ∈ seen ∨ ∃ m ∈ before, f.Names m) :
    checkMembers rules seen (before ++ (.ok k, r) :: after) =
      .error (.mismatch (.duplicateField f.name)) := by
  induction before generalizing seen with
  | nil =>
    have hmet : f.name ∈ seen := hmet.resolve_right nofun
    rw [List.nil_append, checkMembers_known (FieldRule.find?_hasName_of_mem hd hf hk), if_pos hmet]
  | cons m before ih =>
    obtain ⟨key | k', r'⟩ := m
    · cases hok
    rw [List.cons_append]
    simp only [List.mem_cons, exists_eq_or_imp, FieldRule.names_ok] at hmet
    cases hfind : rules.find? (·.hasName k') with
    | none =>
      rw [checkMembers_unknown hfind] at hok ⊢
      cases hskip : r'.skip with
      | error e =>
        rw [hskip] at hok
        cases hok
      | ok _ =>
        rw [hskip] at hok
        apply ih hok
        exact hmet.imp_right fun h => h.resolve_left (FieldRule.of_find?_hasName_none hfind f hf)
    | some g =>
      rw [checkMembers_known hfind] at hok ⊢
      split at hok
      · cases hok
      · rename_i hold
        rw [if_neg hold]
        cases hcheck : g.check r' with
        | error e =>
          rw [hcheck] at hok
          cases hok
        | ok _ =>
          rw [hcheck] at hok
          apply ih hok
          rcases hmet with h | h | h
          · exact .inl (List.mem_cons_of_mem _ h)
          · obtain ⟨hg, hk'⟩ := FieldRule.of_find?_hasName hfind
            rw [FieldRule.eq_of_mem_names hd hf hg h hk']
            exact .inl List.mem_cons_self
          · exact .inr h

def isFor (f : FieldRule) (m : Member) : Bool :=
  match m.1 with
  | .ok k => f.hasName k
  | .error _ => false

theorem isFor_iff {m : Member} : isFor f m = true ↔ f.Names m := by
  obtain ⟨key | k, r⟩ := m
  · constructor
    · intro h
      cases h
    · rintro ⟨k, -, hk⟩
      cases hk
  · exact FieldRule.hasName_iff.trans FieldRule.names_ok.symm

theorem member?_eq (f : FieldRule) (ms : List Member) :
    member? f ms = (ms.find? (isFor f)).map (·.2) := rfl

theorem member?_eq_some_iff (ho : Orderly rules ms) (hf : f ∈ rules) {r : Reading} :
    member? f ms = some r ↔ ∃ m ∈ ms, f.Names m ∧ m.2 = r := by
  rw [member?_eq, Option.map_eq_some_iff]
  constructor
  · rintro ⟨m, hm, hr⟩
    exact ⟨m, List.mem_of_find?_eq_some hm, isFor_iff.1 (List.find?_some hm), hr⟩
  · rintro ⟨m, hm, hn, hr⟩
    cases hfind : ms.find? (isFor f) with
    | none => exact absurd (isFor_iff.2 hn) (List.find?_eq_none.1 hfind m hm)
    | some m' =>
      have hm' := List.mem_of_find?_eq_some hfind
      have hn' := isFor_iff.1 (List.find?_some hfind)
      rw [ho.eq_of_names hf hm hn hm' hn'] at hr
      exact ⟨m', rfl, hr⟩

end Reading

end Snapshots.Json
