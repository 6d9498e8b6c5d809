import Mathlib.Data.List.Induction
import Snapshots.Cluster.Configured
import Snapshots.Proofs.Table

/-! # What configured names lead to

The entries of a configuration make a table of members, and their order decides which cluster is
current at the start. The list of the clusters, the answers to a name and the current cluster all go
back to the first entry of each name. Main statement: `consistent`.
-/

namespace Snapshots.Cluster.Configured

variable {possible : ClusterEntry → Bool} {fs : Files} {config : ClustersConfig}
  {own : Option InCluster} {exchange : Rest.Exchange} {es : List ClusterEntry} {e : ClusterEntry}
  {name : String} {c c' : Configured}

/-! ### The entries that count -/

/-- Whether an entry counts: it has a name, and it is the first of that name. -/
def counts (es : List ClusterEntry) (e : ClusterEntry) : Bool :=
  e.name ≠ "" && es.find? (·.name = e.name) = some e

theorem kept_append (es : List ClusterEntry) (e : ClusterEntry) :
    kept (es ++ [e]) =
      if e.name = "" ∨ ((kept es).find? (·.name = e.name)).isSome then kept es
      else kept es ++ [e] := by
  by_cases hname : e.name = ""
  · simp [kept, List.filter_append, hname]
  · simp [kept, List.filter_append, hname, List.isSome_find?]

theorem find?_kept (es : List ClusterEntry) (hname : name ≠ "") :
    (kept es).find? (·.name = name) = es.find? (·.name = name) := by
  induction es using List.reverseRecOn with
  | nil => rfl
  | append_singleton es e ih =>
    rw [kept_append, List.find?_append, ← ih]
    by_cases he : e.name = name
    · subst he
      cases hfind : (kept es).find? (·.name = e.name) with
      | none => simp [hname, hfind, List.find?_append]
      | some e' => simp [hfind]
    · split <;> simp [List.find?_append, he]

theorem name_ne_of_mem_kept (h : e ∈ kept es) : e.name ≠ "" := by
  induction es using List.reverseRecOn with
  | nil => cases h
  | append_singleton es e' ih =>
    rw [kept_append] at h
    split at h
    · exact ih h
    · rename_i hnew
      rcases List.mem_append.1 h with h | h
      · exact ih h
      · rw [List.mem_singleton.1 h]
        exact fun hempty => hnew (.inl hempty)

theorem nodup_kept (es : List ClusterEntry) : ((kept es).map (·.name)).Nodup := by
  induction es using List.reverseRecOn with
  | nil => exact .nil
  | append_singleton es e ih =>
    rw [kept_append]
    split
    · exact ih
    · rename_i hnew
      rw [List.map_append, List.nodup_append]
      refine ⟨ih, by simp, fun a ha b hb hab => hnew (.inr ?_)⟩
      obtain ⟨e', he', rfl⟩ := List.mem_map.1 ha
      obtain rfl := List.mem_singleton.1 hb
      exact List.find?_isSome.2 ⟨e', he', by simpa using hab⟩

theorem counts_append (h : e ∈ es) (e' : ClusterEntry) : counts (es ++ [e']) e = counts es e := by
  have hsome : (es.find? (·.name = e.name)).isSome := List.find?_isSome.2 ⟨e, h, by simp⟩
  obtain ⟨first, hfirst⟩ := Option.isSome_iff_exists.1 hsome
  simp [counts, List.find?_append, hfirst]

theorem find?_kept_of (es : List ClusterEntry) (p : ClusterEntry → Bool) :
    (kept es).find? p = es.find? fun e => counts es e && p e := by
  induction es using List.reverseRecOn with
  | nil => rfl
  | append_singleton es e ih =>
    have hbefore : (es.find? fun e' => counts (es ++ [e]) e' && p e') =
        es.find? fun e' => counts es e' && p e' := by
      rw [← List.head?_filter, ← List.head?_filter]
      exact congrArg List.head? (List.filter_congr fun e' he' => by rw [counts_append he'])
    rw [kept_append, List.find?_append, hbefore, ← ih]
    by_cases hname : e.name = ""
    · simp [hname, counts]
    rw [find?_kept es hname]
    cases hfirst : es.find? (·.name = e.name) with
    | none =>
      have hcounts : counts (es ++ [e]) e = true := by
        simp [counts, hname, List.find?_append, hfirst]
      simp [hname, List.find?_append, hcounts]
    | some first =>
      simp only [Option.isSome_some, or_true, if_true]
      cases hkept : (kept es).find? p with
      | some e' => rfl
      | none =>
        -- If the last entry counted it would be the first of its name, which was met before.
        have hlast : (counts (es ++ [e]) e && p e) = false := by
          by_contra h
          simp only [counts, List.find?_append, hfirst, Bool.not_eq_false, Bool.and_eq_true,
            decide_eq_true_eq, Option.some_or, Option.some.injEq] at h
          obtain ⟨⟨-, rfl⟩, hp⟩ := h
          have hnone := List.find?_eq_none.1 (ih.symm.trans hkept) first
            (List.mem_of_find?_eq_some hfirst)
          simp [counts, hname, hfirst, hp] at hnone
        simp [hlast]

/-! ### Members -/

/-- The entry that a name leads to: the first of that name, or the entry of the cluster that the
process runs in if none are configured. No name is empty. -/
def entryOf? (config : ClustersConfig) (own : Option InCluster) (name : String) :
    Option ClusterEntry :=
  if config.entries = [] then
    if name = ownName then some (ownEntry own) else none
  else if name = "" then none
  else config.entries.find? (·.name = name)

/-- What there is to tell of an entry. -/
def described (possible : ClusterEntry → Bool) (e : ClusterEntry) : Info where
  name := e.name
  displayName := if e.displayName = "" then e.name else e.displayName
  description := e.description
  enabled := e.enabled
  status :=
    if ¬ e.enabled then .disabled else if e.server ≠ "" ∧ possible e then .online else .error

theorem status_connectIf (possible : ClusterEntry → Bool) (fs : Files) (e : ClusterEntry) :
    (connectIf possible fs e).status = (described possible e).status := by
  unfold connectIf described
  by_cases henabled : e.enabled = true
  · by_cases hserver : e.server = ""
    · simp [henabled, hserver, Connection.status]
    · cases possible e <;> simp [henabled, hserver, Connection.status]
  · simp [henabled, Connection.status]

def memberOf (connect : ClusterEntry → Connection) (config : ClustersConfig)
    (own : Option InCluster) (e : ClusterEntry) : Member :=
  if config.entries = [] then ownMember connect own else ⟨e, connect e⟩

theorem nodup_membersOf (connect : ClusterEntry → Connection) (config : ClustersConfig)
    (own : Option InCluster) :
    ((membersOf connect config own).map (·.entry.name)).Nodup := by
  unfold membersOf
  split
  · simp
  · simpa [List.map_map, Function.comp_def] using nodup_kept config.entries

theorem get?_assemble (connect : ClusterEntry → Connection) (config : ClustersConfig)
    (own : Option InCluster) (exchange : Rest.Exchange) (name : String) :
    (assemble connect config own exchange).members.get? name =
      (entryOf? config own name).map (memberOf connect config own) := by
  have hkeys : (((membersOf connect config own).map fun m => (m.entry.name, m)).map
      Prod.fst).Nodup := by
    simpa [List.map_map, Function.comp_def] using nodup_membersOf connect config own
  rw [assemble, Table.get?, Table.entries_ofList hkeys, Table.lookup_keyed, membersOf, entryOf?]
  by_cases hentries : config.entries = []
  · rw [if_pos hentries, if_pos hentries]
    by_cases hname : name = ownName
    · simp [ownMember, ownEntry, hname, memberOf, hentries]
    · simp [ownMember, ownEntry, hname, Ne.symm hname]
  · have hmember : memberOf connect config own = fun e => ⟨e, connect e⟩ := by
      funext e
      rw [memberOf, if_neg hentries]
    rw [if_neg hentries, if_neg hentries, hmember, List.find?_map]
    congr 1
    split
    · rename_i hname
      rw [List.find?_eq_none]
      intro e he
      simpa [hname] using name_ne_of_mem_kept he
    · rename_i hname
      exact find?_kept config.entries hname

theorem name_of_entryOf? (h : entryOf? config own name = some e) : e.name = name := by
  simp only [entryOf?] at h
  split at h
  · split at h
    · rename_i hname
      cases h
      exact hname.symm
    · cases h
  · split at h
    · cases h
    · simpa using List.find?_some h

theorem eq_ownEntry (hentries : config.entries = []) (h : entryOf? config own name = some e) :
    e = ownEntry own := by
  rw [entryOf?, if_pos hentries] at h
  split at h <;> cases h
  rfl

theorem info_memberOf (h : entryOf? config own name = some e) :
    info name (memberOf (connectIf possible fs) config own e) = described possible e := by
  have hinfo : ∀ e, info e.name ⟨e, connectIf possible fs e⟩ = described possible e := by
    intro e
    simp [info, status_connectIf, described]
  rw [← name_of_entryOf? h, memberOf]
  split
  · rename_i hentries
    rw [eq_ownEntry hentries h]
    cases own with
    | none => rfl
    | some c => exact hinfo (ownEntry (some c))
  · exact hinfo e

theorem connectIf_of_online {endpoint : Endpoint} (h : entryOf? config own name = some e)
    (honline : (memberOf (connectIf possible fs) config own e).connection = .online endpoint) :
    connectIf possible fs e = .online endpoint := by
  rw [memberOf] at honline
  split at honline
  · rename_i hentries
    rw [eq_ownEntry hentries h]
    cases own with
    | none => cases honline
    | some c => exact honline
  · exact honline

/-! ### The list -/

theorem mem_list_iff {i : Info} :
    i ∈ c.list ↔ ∃ name, (c.members.get? name).map (info name) = some i := by
  simp only [list, List.mem_mergeSort, List.mem_map, Option.map_eq_some_iff,
    ← Table.mem_entries_iff, Prod.exists]

theorem names_list (c : Configured) : (c.list.map (·.name)).Pairwise (· < ·) := by
  have hsorted : (c.list.map (·.name)).Pairwise (· ≤ ·) := by
    rw [List.pairwise_map]
    refine (List.pairwise_mergeSort ?_ ?_ _).imp fun h => of_decide_eq_true h
    · intro a b d hab hbd
      exact decide_eq_true (String.le_trans (of_decide_eq_true hab) (of_decide_eq_true hbd))
    · intro a b
      simpa using String.le_total a.name b.name
  have hnodup : (c.list.map (·.name)).Nodup := by
    refine ((List.mergeSort_perm _ _).map _).nodup_iff.2 ?_
    rw [List.map_map]
    exact c.members.nodup
  exact (hsorted.and hnodup).imp fun h => Std.lt_of_le_of_ne h.1 h.2

/-- Whether a name is listed with a status. -/
def Lists (c : Configured) (name : String) (status : Status) : Prop :=
  ∃ i ∈ c.list, i.name = name ∧ i.status = status

theorem lists_iff {status : Status} :
    c.Lists name status ↔ ∃ m, c.members.get? name = some m ∧ m.connection.status = status := by
  constructor
  · rintro ⟨i, hi, rfl, rfl⟩
    obtain ⟨name, hname⟩ := mem_list_iff.1 hi
    obtain ⟨m, hm, rfl⟩ := Option.map_eq_some_iff.1 hname
    exact ⟨m, hm, rfl⟩
  · rintro ⟨m, hm, rfl⟩
    exact ⟨info name m, mem_list_iff.2 ⟨name, by rw [hm]; rfl⟩, rfl, rfl⟩

/-! ### Answers to a name -/

/-- Why a name leads to no server, as the list tells. -/
inductive Refused (c : Configured) (name : String) : Error → Prop where
  | disabled : c.Lists name .disabled → Refused c name (.disabled name)
  | unavailable : c.Lists name .error → Refused c name (.unavailable name)
  | notFound : (∀ i ∈ c.list, i.name ≠ name) → Refused c name (.notFound name)

theorem resolve_eq_ok_iff {endpoint : Endpoint} : c.resolve name = .ok endpoint ↔
    ∃ m, c.members.get? name = some m ∧ m.connection = .online endpoint := by
  rw [resolve]
  cases c.members.get? name with
  | none => simp
  | some m => cases h : m.connection <;> simp [h]

theorem resolve_isOk_iff : (∃ endpoint, c.resolve name = .ok endpoint) ↔ c.Lists name .online := by
  simp only [lists_iff, resolve_eq_ok_iff]
  constructor
  · rintro ⟨endpoint, m, hm, honline⟩
    exact ⟨m, hm, by rw [honline]; rfl⟩
  · rintro ⟨m, hm, hstatus⟩
    cases honline : m.connection with
    | online endpoint => exact ⟨endpoint, m, hm, honline⟩
    | failed reason =>
      rw [honline] at hstatus
      cases hstatus
    | disabled =>
      rw [honline] at hstatus
      cases hstatus

theorem not_listed_iff : (∀ i ∈ c.list, i.name ≠ name) ↔ c.members.get? name = none := by
  constructor
  · intro h
    by_contra hne
    obtain ⟨m, hm⟩ := Option.ne_none_iff_exists'.1 hne
    obtain ⟨i, hi, hname, -⟩ := lists_iff.2 ⟨m, hm, rfl⟩
    exact h i hi hname
  · rintro hnone i hi rfl
    obtain ⟨m, hm, -⟩ := lists_iff.1 ⟨i, hi, rfl, rfl⟩
    rw [hnone] at hm
    cases hm

theorem resolve_eq_error_iff {e : Error} : c.resolve name = .error e ↔ c.Refused name e := by
  constructor
  · intro h
    rw [resolve] at h
    cases hm : c.members.get? name with
    | none =>
      rw [hm] at h
      cases h
      exact .notFound (not_listed_iff.2 hm)
    | some m =>
      cases hconnection : m.connection with
      | online endpoint => simp [hm, hconnection] at h
      | failed reason =>
        simp only [hm, hconnection, Except.error.injEq] at h
        subst h
        exact .unavailable (lists_iff.2 ⟨m, hm, by rw [hconnection]; rfl⟩)
      | disabled =>
        simp only [hm, hconnection, Except.error.injEq] at h
        subst h
        exact .disabled (lists_iff.2 ⟨m, hm, by rw [hconnection]; rfl⟩)
  · intro h
    cases h with
    | disabled h =>
      obtain ⟨m, hm, hstatus⟩ := lists_iff.1 h
      cases hconnection : m.connection <;> simp_all [resolve, Connection.status]
    | unavailable h =>
      obtain ⟨m, hm, hstatus⟩ := lists_iff.1 h
      cases hconnection : m.connection <;> simp_all [resolve, Connection.status]
    | notFound h => rw [resolve, not_listed_iff.1 h]

/-! ### The current cluster -/

/-- The fleet after a call that asks for another current cluster, and the answer. -/
def trySwitch (c : Configured) (name : String) : Configured × Except Error Unit :=
  match c.switch name with
  | .ok c' => (c', .ok ())
  | .error e => (c, .error e)

/-- The fleet after such calls, and the calls with their answers. -/
def trySwitches (c : Configured) : List String → Configured × List (String × Except Error Unit)
  | [] => (c, [])
  | name :: names =>
    let (c, r) := c.trySwitch name
    let (c, log) := trySwitches c names
    (c, (name, r) :: log)

/-- The name that the latest of the calls that succeeded asks for. -/
def latest? (log : List (String × Except Error Unit)) : Option String :=
  ((log.filter (·.2.isOk)).getLast?).map (·.1)

theorem latest?_granted (name : String) (log : List (String × Except Error Unit)) :
    latest? ((name, .ok ()) :: log) = some ((latest? log).getD name) := by
  rw [latest?, List.filter_cons_of_pos rfl, List.getLast?_cons, latest?]
  cases (log.filter (·.2.isOk)).getLast? <;> rfl

theorem trySwitch_cases (c : Configured) (name : String) :
    (∃ e, c.trySwitch name = (c, .error e)) ∨
      c.trySwitch name = ({ c with current := name }, .ok ()) := by
  rw [trySwitch, switch]
  cases c.resolve name with
  | error e => exact .inl ⟨e, rfl⟩
  | ok endpoint => exact .inr rfl

theorem answer_trySwitch (c : Configured) (name : String) :
    (c.trySwitch name).2 = (c.resolve name).map fun _ => () := by
  rw [trySwitch, switch]
  cases c.resolve name <;> rfl

/-- Calls change nothing but which cluster is current, and that is the latest that was granted. -/
theorem trySwitches_eq {names : List String} {log : List (String × Except Error Unit)}
    (h : c.trySwitches names = (c', log)) :
    c' = { c with current := (latest? log).getD c.current } := by
  induction names generalizing c log with
  | nil =>
    cases h
    rfl
  | cons name names ih =>
    rcases hrest : (c.trySwitch name).1.trySwitches names with ⟨c'', log'⟩
    obtain ⟨rfl, rfl⟩ : c'' = c' ∧ (name, (c.trySwitch name).2) :: log' = log := by
      simpa [trySwitches, hrest] using h
    rw [ih hrest]
    rcases c.trySwitch_cases name with ⟨e, hcall⟩ | hcall
    · rw [hcall]
      rfl
    · rw [hcall, latest?_granted]
      rfl

/-- The cluster that is current before any call is granted. -/
def startName (config : ClustersConfig) : String :=
  let first? (p : ClusterEntry → Bool) : Option String :=
    (config.entries.find? fun e => counts config.entries e && p e).map (·.name)
  ((config.current.or (first? (·.enabled))).or (first? fun _ => true)).getD ownName

theorem current_assemble (connect : ClusterEntry → Connection) (config : ClustersConfig)
    (own : Option InCluster) (exchange : Rest.Exchange) :
    (assemble connect config own exchange).current = startName config := by
  simp only [assemble, firstCurrent, startName]
  cases config.current with
  | some name => rfl
  | none =>
    rw [membersOf]
    split
    · rename_i hentries
      simp [hentries, ownMember, ownEntry]
    · have hhead : (kept config.entries).head? = (kept config.entries).find? fun _ => true := by
        cases kept config.entries <;> rfl
      rw [List.find?_map, List.head?_map, hhead, find?_kept_of, find?_kept_of]
      simp only [Function.comp_apply, Option.getD_none, Option.none_or]
      cases config.entries.find? fun e => counts config.entries e && e.enabled with
      | some e => rfl
      | none =>
        cases config.entries.find? fun e => counts config.entries e && true with
        | some e => rfl
        | none => rfl

example : startName { entries := [{}, { name := "west", enabled := false }, { name := "east" }] } =
    "east" := by
  decide

/-! ### All views -/

/-- The list, the answers to names and the current cluster agree with the entries and with the calls
that were granted. -/
structure Consistent (possible : ClusterEntry → Bool) (fs : Files) (config : ClustersConfig)
    (own : Option InCluster) (log : List (String × Except Error Unit)) (c : Configured) : Prop where
  ascending : (c.list.map (·.name)).Pairwise (· < ·)
  listed : ∀ i, i ∈ c.list ↔
    ∃ e, entryOf? config own i.name = some e ∧ i = described possible e
  resolves : ∀ name, (∃ endpoint, Fleet.resolve c name = .ok endpoint) ↔ c.Lists name .online
  refuses : ∀ name e, Fleet.resolve c name = .error e ↔ c.Refused name e
  routes : ∀ name endpoint, Fleet.resolve c name = .ok endpoint →
    ∃ e, entryOf? config own name = some e ∧ connectIf possible fs e = .online endpoint
  switches : ∀ name, (c.trySwitch name).2 = .ok () ↔ c.Lists name .online
  declines : ∀ name e, (c.trySwitch name).2 = .error e ↔ c.Refused name e
  unchanged : ∀ name e, (c.trySwitch name).2 = .error e → (c.trySwitch name).1 = c
  current_eq : Fleet.current c = (latest? log).getD (startName config)

/-- Whatever the entries are and whichever of them a client is possible for, after any calls that
ask for another current cluster all views of the clusters agree. -/
theorem consistent (possible : ClusterEntry → Bool) (fs : Files) (config : ClustersConfig)
    (own : Option InCluster) (exchange : Rest.Exchange) (names : List String) :
    Consistent possible fs config own
      ((assemble (connectIf possible fs) config own exchange).trySwitches names).2
      ((assemble (connectIf possible fs) config own exchange).trySwitches names).1 := by
  rcases hcalls : (assemble (connectIf possible fs) config own exchange).trySwitches names
    with ⟨c, log⟩
  have hc := trySwitches_eq hcalls
  have hget : ∀ name, c.members.get? name =
      (entryOf? config own name).map (memberOf (connectIf possible fs) config own) := by
    intro name
    rw [hc]
    exact get?_assemble (connectIf possible fs) config own exchange name
  refine
    { ascending := c.names_list
      listed := fun i => ?_
      resolves := fun name => resolve_isOk_iff
      refuses := fun name e => resolve_eq_error_iff
      routes := fun name endpoint h => ?_
      switches := fun name => ?_
      declines := fun name e => ?_
      unchanged := fun name e h => ?_
      current_eq := ?_ }
  · rw [mem_list_iff]
    constructor
    · rintro ⟨name, h⟩
      rw [hget, Option.map_map, Option.map_eq_some_iff] at h
      obtain ⟨e, he, rfl⟩ := h
      exact ⟨e, he, info_memberOf he⟩
    · rintro ⟨e, he, hi⟩
      refine ⟨i.name, ?_⟩
      rw [hget, he, hi, Option.map_some, Option.map_some, ← info_memberOf he]
      rfl
  · obtain ⟨m, hm, honline⟩ := resolve_eq_ok_iff.1 h
    rw [hget, Option.map_eq_some_iff] at hm
    obtain ⟨e, he, rfl⟩ := hm
    exact ⟨e, he, connectIf_of_online he honline⟩
  · rw [answer_trySwitch, ← resolve_isOk_iff]
    cases c.resolve name <;> simp [Except.map]
  · rw [answer_trySwitch, ← resolve_eq_error_iff]
    cases c.resolve name <;> simp [Except.map]
  · rcases c.trySwitch_cases name with ⟨e', hcall⟩ | hcall
    · rw [hcall]
    · rw [hcall] at h
      cases h
  · change c.current = _
    rw [hc, current_assemble]

end Snapshots.Cluster.Configured
