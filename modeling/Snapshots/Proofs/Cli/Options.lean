import Mathlib.Data.List.TakeWhile
import Snapshots.Cli.Grammar

/-! # Written options

A reader takes an option and its value in one argument, whatever characters the value has. A row of
such arguments is taken as a whole, unless an option that may stand once stands twice.
-/

namespace Snapshots.Cli

variable {α : Type}

/-- An option whose name can be written: no value begins within it, and a flag has a name that not
every command has. -/
def OptionRule.Plain (o : OptionRule) : Prop :=
  '=' ∉ o.name.toList ∧ (o.arity = .flag → o.name ∉ ["", "help", "version"])

instance (o : OptionRule) : Decidable o.Plain :=
  inferInstanceAs (Decidable (_ ∧ _))

structure Written where
  rule : OptionRule
  value : String := ""

namespace Written

def text (o : Written) : String :=
  if o.rule.arity = .flag then "--" ++ o.rule.name
  else "--" ++ o.rule.name ++ "=" ++ o.value

def entry (o : Written) : String × String :=
  (o.rule.name, o.value)

/-- An option with a value that it takes. -/
structure Fits (o : Written) : Prop where
  accepted : o.rule.accepts o.value = true
  flag : o.rule.arity = .flag → o.value = ""

end Written

theorem takeWhile_append_mark {p : Char → Bool} {c : Char} {n v : List Char}
    (hn : ∀ a ∈ n, p a = true) (hc : p c = false) : (n ++ c :: v).takeWhile p = n := by
  rw [List.takeWhile_append_of_pos hn, List.takeWhile_cons_of_neg (by simp [hc]), List.append_nil]

theorem dropWhile_append_mark {p : Char → Bool} {c : Char} {n v : List Char}
    (hn : ∀ a ∈ n, p a = true) (hc : p c = false) : (n ++ c :: v).dropWhile p = c :: v := by
  rw [List.dropWhile_append_of_pos hn, List.dropWhile_cons_of_neg (by simp [hc])]

namespace Word

theorem ofText_dashed {s : String} {cs : List Char} (hs : s.toList = '-' :: '-' :: cs)
    (h : cs ≠ []) :
    ofText s = match cs.dropWhile (· ≠ '=') with
      | _ :: value => long (String.ofList (cs.takeWhile (· ≠ '='))) (some (String.ofList value))
      | [] => long (String.ofList cs) none := by
  cases cs with
  | nil => exact absurd rfl h
  | cons c cs =>
    unfold ofText
    rw [hs]
    rfl

theorem ofText_valued {n : String} (hn : '=' ∉ n.toList) (v : String) :
    ofText ("--" ++ n ++ "=" ++ v) = .long n (some v) := by
  have hp : ∀ a ∈ n.toList, decide (a ≠ '=') = true := by
    intro a ha
    simpa using fun h : a = '=' => hn (h ▸ ha)
  have hs : ("--" ++ n ++ "=" ++ v).toList = '-' :: '-' :: (n.toList ++ '=' :: v.toList) := by
    simp
  rw [ofText_dashed hs (by simp), dropWhile_append_mark hp rfl, takeWhile_append_mark hp rfl,
    String.ofList_toList]
  exact congrArg (fun value => long n (some value)) String.ofList_toList

theorem ofText_flag {n : String} (hn : '=' ∉ n.toList) (h : n ≠ "") :
    ofText ("--" ++ n) = .long n none := by
  have hs : ("--" ++ n).toList = '-' :: '-' :: n.toList := by simp
  have hd : n.toList.dropWhile (fun a => decide (a ≠ '=')) = [] := by
    apply List.dropWhile_eq_nil_iff.2
    intro a ha
    simpa using fun h : a = '=' => hn (h ▸ ha)
  rw [ofText_dashed hs (mt String.toList_eq_nil_iff.1 h), hd, String.ofList_toList]

end Word

namespace Given

theorem add?_of_new {g : Given} {o : Written}
    (hnew : o.rule.arity ≠ .many → g.has o.rule.name = false)
    (ha : o.rule.accepts o.value = true) :
    g.add? o.rule o.value = some { g with options := o.entry :: g.options } := by
  unfold add?
  rw [if_neg]
  · rfl
  · rintro (⟨hm, hh⟩ | h)
    · rw [hnew hm] at hh
      cases hh
    · exact h ha

theorem has_eq (g : Given) (name : String) : g.has name = !(g.values name).isEmpty := by
  rw [has, values]
  induction g.options with
  | nil => rfl
  | cons p ps ih =>
    rw [List.any_cons, ih]
    by_cases hp : p.1 = name
    · simp [hp]
    · simp [hp]

theorem value?_eq {g : Given} (h : g.outer = []) (name : String) :
    g.value? name = (g.values name).getLast? := by
  rw [value?, values, h, List.append_nil, List.getLast?_map, List.getLast?_reverse]
  induction g.options with
  | nil => rfl
  | cons p ps ih =>
    obtain ⟨n, v⟩ := p
    by_cases hn : n = name
    · subst hn
      rw [List.lookup_cons_self, List.filter_cons_of_pos (by simp)]
      rfl
    · rw [List.filter_cons_of_neg (by simpa using hn), ← ih, List.lookup_cons,
        beq_false_of_ne (Ne.symm hn)]

end Given

namespace Reader

def having (r : Reader α) (options : List (String × String)) : Reader α :=
  { r with given := { r.given with options := options ++ r.given.options } }

theorem having_having (r : Reader α) (ps qs : List (String × String)) :
    (r.having ps).having qs = r.having (qs ++ ps) := by
  simp only [having, List.append_assoc]

theorem read_written {r : Reader α} {o : Written} (hw : r.waiting = none) (hp : o.rule.Plain)
    (ho : o.Fits) (hfind : (r.verb.options ++ r.shared).find? (·.name = o.rule.name) = some o.rule)
    (hnew : o.rule.arity ≠ .many → r.given.has o.rule.name = false) (args : List String) :
    r.read (o.text :: args) = (r.having [o.entry]).read args := by
  have hadd := Given.add?_of_new hnew ho.accepted
  by_cases hf : o.rule.arity = .flag
  · rw [ho.flag hf] at hadd
    have hname := hp.2 hf
    simp only [List.mem_cons, List.not_mem_nil, or_false, not_or] at hname
    have hword : Word.ofText o.text = .long o.rule.name none := by
      rw [Written.text, if_pos hf, Word.ofText_flag hp.1 hname.1]
    have hopt : r.option? o.rule.name none = some (r.having [o.entry]) := by
      simp [option?, hfind, hf, hadd, having]
    simp only [read, hw, hword, hopt, hname, false_and, if_false]
  · have hword : Word.ofText o.text = .long o.rule.name (some o.value) := by
      rw [Written.text, if_neg hf, Word.ofText_valued hp.1]
    have hopt : r.option? o.rule.name (some o.value) = some (r.having [o.entry]) := by
      cases harity : o.rule.arity with
      | flag => exact absurd harity hf
      | one => simp [option?, hfind, harity, hadd, having]
      | many => simp [option?, hfind, harity, hadd, having]
    simp only [read, hw, hword, hopt, reduceCtorEq, false_and, and_false, if_false]

theorem read_row {os : List Written} (r : Reader α) (hw : r.waiting = none)
    (hp : ∀ o ∈ os, o.rule.Plain) (ho : ∀ o ∈ os, o.Fits)
    (hfind : ∀ o ∈ os, (r.verb.options ++ r.shared).find? (·.name = o.rule.name) = some o.rule)
    (hnew : ∀ o ∈ os, o.rule.arity ≠ .many → r.given.has o.rule.name = false)
    (honce : os.Pairwise fun a b => b.rule.arity ≠ .many → a.rule.name ≠ b.rule.name)
    (args : List String) :
    r.read (os.map Written.text ++ args) =
      (r.having (os.map Written.entry).reverse).read args := by
  induction os generalizing r with
  | nil => rfl
  | cons o os ih =>
    rw [List.forall_mem_cons] at hp ho hfind hnew
    obtain ⟨hhead, htail⟩ := List.pairwise_cons.1 honce
    have hrest : ∀ o' ∈ os, o'.rule.arity ≠ .many →
        (r.having [o.entry]).given.has o'.rule.name = false := by
      intro o' h' hm
      have hne : o.rule.name ≠ o'.rule.name := hhead o' h' hm
      simp only [having, Given.has, List.cons_append, List.nil_append, List.any_cons,
        Written.entry, decide_eq_false hne, Bool.false_or]
      exact hnew.2 o' h' hm
    rw [List.map_cons, List.cons_append, read_written hw hp.1 ho.1 hfind.1 hnew.1,
      ih (r.having [o.entry]) hw hp.2 ho.2 hfind.2 hrest htail, having_having, List.map_cons,
      List.reverse_cons]

end Reader

/-! ### Sheets -/

/-- Options of different names, each with the values that it is given. -/
structure Sheet where
  entries : List (OptionRule × List String)
  apart : (entries.map (·.1.name)).Nodup
  once : ∀ e ∈ entries, e.1.arity ≠ .many → e.2.length ≤ 1

namespace Sheet

def row (s : Sheet) : List Written :=
  s.entries.flatMap fun e => e.2.map (Written.mk e.1)

def given (s : Sheet) : Given where
  options := (s.row.map Written.entry).reverse

theorem mem_row_iff {s : Sheet} {o : Written} :
    o ∈ s.row ↔ ∃ vs, (o.rule, vs) ∈ s.entries ∧ o.value ∈ vs := by
  rw [row, List.mem_flatMap]
  constructor
  · rintro ⟨⟨rule, vs⟩, he, ho⟩
    obtain ⟨v, hv, rfl⟩ := List.mem_map.1 ho
    exact ⟨vs, he, hv⟩
  · rintro ⟨vs, he, hv⟩
    exact ⟨(o.rule, vs), he, List.mem_map.2 ⟨o.value, hv, rfl⟩⟩

theorem row_pairwise (s : Sheet) :
    s.row.Pairwise fun a b => b.rule.arity ≠ .many → a.rule.name ≠ b.rule.name := by
  rw [row, List.pairwise_flatMap]
  constructor
  · rintro ⟨rule, vs⟩ he
    by_cases hm : rule.arity = .many
    · rw [List.pairwise_map]
      exact List.pairwise_of_forall fun _ _ h => absurd hm h
    · have hone := s.once _ he hm
      match vs, hone with
      | [], _ => exact .nil
      | [v], _ => exact List.pairwise_singleton _ _
  · refine (List.pairwise_map.1 s.apart).imp fun {e e'} hne => ?_
    intro a ha b hb _
    obtain ⟨v, -, rfl⟩ := List.mem_map.1 ha
    obtain ⟨v', -, rfl⟩ := List.mem_map.1 hb
    exact hne

theorem filter_values (rule : OptionRule) (vs : List String) (name : String) :
    ((vs.map (Written.mk rule)).map Written.entry).filter (·.1 = name) =
      if rule.name = name then vs.map (rule.name, ·) else [] := by
  rw [List.map_map]
  split
  · rename_i heq
    apply List.filter_eq_self.2
    rintro p hp
    obtain ⟨v, -, rfl⟩ := List.mem_map.1 hp
    exact decide_eq_true heq
  · rename_i hne
    apply List.filter_eq_nil_iff.2
    rintro p hp
    obtain ⟨v, -, rfl⟩ := List.mem_map.1 hp
    exact mt of_decide_eq_true hne

theorem filter_others {es : List (OptionRule × List String)} {name : String}
    (h : name ∉ es.map (·.1.name)) :
    ((es.flatMap fun e => e.2.map (Written.mk e.1)).map Written.entry).filter (·.1 = name) =
      [] := by
  induction es with
  | nil => rfl
  | cons e es ih =>
    rw [List.map_cons, List.mem_cons, not_or] at h
    rw [List.flatMap_cons, List.map_append, List.filter_append, filter_values,
      if_neg (Ne.symm h.1), ih h.2, List.nil_append]

theorem filter_row {s : Sheet} {rule : OptionRule} {vs : List String}
    (h : (rule, vs) ∈ s.entries) :
    (s.row.map Written.entry).filter (·.1 = rule.name) = vs.map (rule.name, ·) := by
  obtain ⟨before, after, hs⟩ := List.append_of_mem h
  have hd := s.apart
  rw [hs, List.map_append, List.map_cons, List.perm_middle.nodup_iff, List.nodup_cons,
    List.mem_append, not_or] at hd
  rw [row, hs, List.flatMap_append, List.flatMap_cons, List.map_append, List.map_append,
    List.filter_append, List.filter_append, filter_others hd.1.1, filter_others hd.1.2,
    filter_values, if_pos rfl, List.nil_append, List.append_nil]

theorem values_given {s : Sheet} {rule : OptionRule} {vs : List String}
    (h : (rule, vs) ∈ s.entries) : s.given.values rule.name = vs := by
  rw [Given.values, given, List.filter_reverse, filter_row h, List.reverse_reverse, List.map_map]
  exact List.map_id _

theorem has_given {s : Sheet} {rule : OptionRule} {vs : List String}
    (h : (rule, vs) ∈ s.entries) : s.given.has rule.name = !vs.isEmpty := by
  rw [Given.has_eq, values_given h]

theorem value?_given {s : Sheet} {rule : OptionRule} {vs : List String}
    (h : (rule, vs) ∈ s.entries) : s.given.value? rule.name = vs.getLast? := by
  rw [Given.value?_eq rfl, values_given h]

theorem value?_given_of_not_mem {s : Sheet} {name : String}
    (h : name ∉ s.entries.map (·.1.name)) : s.given.value? name = none := by
  rw [Given.value?_eq rfl, Given.values, given, List.filter_reverse, row, filter_others h]
  rfl

end Sheet

theorem find?_of_apart {os shared : List OptionRule} (hd : (os.map (·.name)).Nodup)
    {o : OptionRule} (ho : o ∈ os) : (os ++ shared).find? (·.name = o.name) = some o := by
  obtain ⟨before, after, rfl⟩ := List.append_of_mem ho
  rw [List.map_append, List.map_cons, List.perm_middle.nodup_iff, List.nodup_cons,
    List.mem_append, not_or] at hd
  have hbefore : before.find? (·.name = o.name) = none := by
    apply List.find?_eq_none.2
    intro o' h' heq
    exact hd.1.1 (List.mem_map.2 ⟨o', h', of_decide_eq_true heq⟩)
  rw [List.find?_append, List.find?_append, hbefore, List.find?_cons_of_pos (by simp)]
  rfl

/-- The reader of a command takes a sheet of its options, if they take their values. -/
theorem Reader.read_sheet {r : Reader α} {s : Sheet} (hr : r.given = {}) (hw : r.waiting = none)
    (hrules : s.entries.map Prod.fst = r.verb.options) (hp : ∀ o ∈ r.verb.options, o.Plain)
    (hfits : ∀ e ∈ s.entries, ∀ v ∈ e.2, (Written.mk e.1 v).Fits) :
    r.read (s.row.map Written.text) = { r with given := s.given }.finish := by
  have hrule : ∀ o ∈ s.row, o.rule ∈ r.verb.options := by
    intro o ho
    obtain ⟨vs, he, -⟩ := Sheet.mem_row_iff.1 ho
    rw [← hrules]
    exact List.mem_map_of_mem he
  have hnames : (r.verb.options.map (·.name)).Nodup := by
    rw [← hrules, List.map_map]
    exact s.apart
  have hvalue : ∀ o ∈ s.row, o.Fits := by
    intro o ho
    obtain ⟨vs, he, hv⟩ := Sheet.mem_row_iff.1 ho
    exact hfits _ he _ hv
  have hnew : ∀ o ∈ s.row, o.rule.arity ≠ .many → r.given.has o.rule.name = false := by
    intro o _ _
    rw [hr]
    rfl
  have hrow := r.read_row hw (fun o ho => hp _ (hrule o ho)) hvalue
    (fun o ho => find?_of_apart hnames (hrule o ho)) hnew s.row_pairwise []
  rw [List.append_nil] at hrow
  rw [hrow, read, having, hr, List.append_nil]
  rfl

end Snapshots.Cli
