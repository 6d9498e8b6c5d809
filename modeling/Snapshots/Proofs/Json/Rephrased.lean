import Snapshots.Proofs.Json.Members

/-! # Objects that say the same

A record may be given with other names for its fields, with its members in another order and with
members that no field asks for. It is read as the same values. Two members for one field are
refused, the second as soon as it is met.
-/

namespace Snapshots.Json

variable {rules : List FieldRule} {ms ms' : List Member} {f : FieldRule}

/-- Members say the same as others: some stand under another name of their field, in another order,
or between members that no field asks for. -/
inductive Rephrased (rules : List FieldRule) : List Member → List Member → Prop where
  | rename {f : FieldRule} (hf : f ∈ rules) {k k' : String} (hk : k ∈ f.names) (hk' : k' ∈ f.names)
      (before after : List Member) (r : Reading) :
      Rephrased rules (before ++ (.ok k, r) :: after) (before ++ (.ok k', r) :: after)
  | reorder {ms ms' : List Member} (h : ms.Perm ms') : Rephrased rules ms ms'
  | add {k : String} {r : Reading} (hk : ∀ f ∈ rules, k ∉ f.names) (hr : r.WellFormed)
      (before after : List Member) :
      Rephrased rules (before ++ after) (before ++ (.ok k, r) :: after)
  | trans {ms ms' ms'' : List Member} (h : Rephrased rules ms ms') (h' : Rephrased rules ms' ms'') :
      Rephrased rules ms ms''

/-- Members that are in order for the same values. -/
structure Agrees (rules : List FieldRule) (ms ms' : List Member) : Prop where
  orderly : Orderly rules ms'
  value_iff : ∀ f ∈ rules, ∀ r, (∃ m ∈ ms', f.Names m ∧ m.2 = r) ↔ ∃ m ∈ ms, f.Names m ∧ m.2 = r

namespace Agrees

theorem of_perm (ho : Orderly rules ms) (hp : ms.Perm ms') : Agrees rules ms ms' where
  orderly := ho.perm hp
  value_iff f _ r := by simp only [hp.mem_iff]

theorem trans {ms'' : List Member} (h : Agrees rules ms ms') (h' : Agrees rules ms' ms'') :
    Agrees rules ms ms'' where
  orderly := h'.orderly
  value_iff f hf r := (h'.value_iff f hf r).trans (h.value_iff f hf r)

theorem rename_head (hd : rules.Pairwise FieldRule.Distinct) (hf : f ∈ rules) {k k' : String}
    (hk : k ∈ f.names) (hk' : k' ∈ f.names) {r : Reading} (ho : Orderly rules ((.ok k, r) :: ms)) :
    Agrees rules ((.ok k, r) :: ms) ((.ok k', r) :: ms) := by
  have hsame : ∀ g ∈ rules, g.Names (.ok k', r) ↔ g.Names (.ok k, r) := by
    intro g hg
    rw [FieldRule.names_ok, FieldRule.names_ok]
    constructor
    · intro h
      rwa [FieldRule.eq_of_mem_names hd hg hf h hk']
    · intro h
      rwa [FieldRule.eq_of_mem_names hd hg hf h hk]
  obtain ⟨hm, hms, hnew⟩ := Orderly.cons_iff.1 ho
  constructor
  · refine Orderly.cons_iff.2 ⟨⟨⟨k', rfl⟩, ?_, ?_⟩, hms, ?_⟩
    · exact fun g hg hn => hm.check g hg ((hsame g hg).1 hn)
    · exact fun hnone => hm.skip fun g hg hn => hnone g hg ((hsame g hg).2 hn)
    · exact fun g hg hn => hnew g hg ((hsame g hg).1 hn)
  · intro g hg v
    simp only [List.mem_cons, exists_eq_or_imp, hsame g hg]

theorem add_head {k : String} {r : Reading} (hk : ∀ f ∈ rules, k ∉ f.names) (hr : r.WellFormed)
    (ho : Orderly rules ms) : Agrees rules ms ((.ok k, r) :: ms) := by
  have hnone : ∀ f ∈ rules, ¬ f.Names (.ok k, r) := fun f hf hn =>
    hk f hf (FieldRule.names_ok.1 hn)
  constructor
  · exact Orderly.cons_iff.2 ⟨⟨⟨k, rfl⟩, fun f hf hn => absurd hn (hnone f hf), fun _ => hr⟩, ho,
      fun f hf hn => absurd hn (hnone f hf)⟩
  · intro f hf v
    simp only [List.mem_cons, exists_eq_or_imp, hnone f hf, false_and, false_or]

end Agrees

/-- Members that say the same as others in order are in order for the same values. -/
theorem Rephrased.agrees (hd : rules.Pairwise FieldRule.Distinct) (h : Rephrased rules ms ms')
    (ho : Orderly rules ms) : Agrees rules ms ms' := by
  induction h with
  | rename hf hk hk' before after r =>
    have hfront := Agrees.of_perm ho List.perm_middle
    have hname := Agrees.rename_head hd hf hk hk' hfront.orderly
    exact (hfront.trans hname).trans (.of_perm hname.orderly List.perm_middle.symm)
  | reorder h => exact .of_perm ho h
  | add hk hr before after =>
    have hadd := Agrees.add_head hk hr ho
    exact hadd.trans (.of_perm hadd.orderly List.perm_middle.symm)
  | trans _ _ ih ih' =>
    have h := ih ho
    exact h.trans (ih' h.orderly)

namespace Reading

variable {rule : RecordRule} {ending : Ending} {vs : Fields}

theorem close_eq_ok_iff : close ending = .ok () ↔ ending.Sound := by
  cases ending with
  | closed | whole => simp [close, Ending.Sound]
  | broken cut => simp [close, Ending.Sound]

def missing? (rules : List FieldRule) (ms : List Member) : Option (FieldRule × Option Reading) :=
  (rules.zip (rules.map fun f => member? f ms)).find? fun (f, v) => f.required && v.isNone

theorem missing?_eq_none_iff : missing? rules ms = none ↔
    ∀ f ∈ rules, f.required = true → (member? f ms).isSome = true := by
  have hzip : rules.zip (rules.map fun f => member? f ms) =
      rules.map fun f => (f, member? f ms) := by
    rw [← List.zip_map', List.map_id']
  rw [missing?, hzip, List.find?_eq_none, List.forall_mem_map]
  simp [Option.isSome_iff_ne_none]

theorem fields_object (rule : RecordRule) (ms : List Member) (ending : Ending) :
    fields rule (.object ms ending) =
      (checkMembers rule.fields [] ms).bind fun _ => (close ending).bind fun _ =>
        match missing? rule.fields ms with
        | some (f, _) => .error (.mismatch (.missingField f.name))
        | none => .ok (rule.fields.map fun f => member? f ms) := rfl

theorem fields_object_eq_ok_iff (hd : rule.fields.Pairwise FieldRule.Distinct) :
    fields rule (.object ms ending) = .ok vs ↔
      Orderly rule.fields ms ∧ ending.Sound ∧
        (∀ f ∈ rule.fields, f.required = true → (member? f ms).isSome = true) ∧
          vs = rule.fields.map fun f => member? f ms := by
  have horder : checkMembers rule.fields [] ms = .ok () ↔ Orderly rule.fields ms := by
    rw [checkMembers_eq_ok_iff hd]
    exact and_iff_left (unseen_nil _ _)
  rw [fields_object, bind_unit_eq_ok_iff, bind_unit_eq_ok_iff, horder, close_eq_ok_iff,
    ← missing?_eq_none_iff]
  cases missing? rule.fields ms with
  | some p => simp
  | none => simp [eq_comm]

theorem fields_of_rephrased (hd : rule.fields.Pairwise FieldRule.Distinct) {ending' : Ending}
    (h : Rephrased rule.fields ms ms') (he : ending'.Sound)
    (hread : fields rule (.object ms ending) = .ok vs) :
    fields rule (.object ms' ending') = .ok vs := by
  obtain ⟨ho, -, hrequired, hvs⟩ := (fields_object_eq_ok_iff hd).1 hread
  have hagrees := h.agrees hd ho
  have hvalue : ∀ f ∈ rule.fields, member? f ms' = member? f ms := by
    intro f hf
    ext r
    rw [member?_eq_some_iff hagrees.orderly hf, member?_eq_some_iff ho hf]
    exact hagrees.value_iff f hf r
  refine (fields_object_eq_ok_iff hd).2 ⟨hagrees.orderly, he, ?_, ?_⟩
  · intro f hf hr
    rw [hvalue f hf]
    exact hrequired f hf hr
  · rw [hvs]
    exact (List.map_congr_left hvalue).symm

theorem not_orderly_of_doubled {before after : List Member} {m : Member} (hf : f ∈ rules)
    (hbefore : ∃ m ∈ before, f.Names m) (hm : f.Names m) :
    ¬ Orderly rules (before ++ m :: after) := by
  intro ho
  obtain ⟨m', hm', hn⟩ := hbefore
  exact (List.pairwise_append.1 ho.once).2.2 m' hm' m List.mem_cons_self f hf hn hm

/-- An object with two members for a field is not read. If the members before the second are in
order, the second is what is wrong. -/
theorem fields_doubled (hd : rule.fields.Pairwise FieldRule.Distinct) {before after : List Member}
    {k : String} {r : Reading} (hf : f ∈ rule.fields) (hbefore : ∃ m ∈ before, f.Names m)
    (hk : k ∈ f.names) :
    (∃ e, fields rule (.object (before ++ (.ok k, r) :: after) ending) = .error e) ∧
      (Orderly rule.fields before →
        fields rule (.object (before ++ (.ok k, r) :: after) ending) =
          .error (.mismatch (.duplicateField f.name))) := by
  constructor
  · cases h : fields rule (.object (before ++ (.ok k, r) :: after) ending) with
    | error e => exact ⟨e, rfl⟩
    | ok vs =>
      exact absurd ((fields_object_eq_ok_iff hd).1 h).1
        (not_orderly_of_doubled hf hbefore (FieldRule.names_ok.2 hk))
  · intro ho
    have hok : checkMembers rule.fields [] before = .ok () :=
      (checkMembers_eq_ok_iff hd).2 ⟨ho, fun _ _ _ _ _ => List.not_mem_nil⟩
    rw [fields, checkMembers_doubled hd hok hf hk (.inr hbefore)]
    rfl

end Reading

end Snapshots.Json
