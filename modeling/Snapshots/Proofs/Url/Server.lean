import Snapshots.Proofs.Url.Segment

/-! # Paths of servers

A path that is written behind the URL of a server is read as the path of that server. Main
statement: `IsServer.addresses_iff`.
-/

namespace Snapshots.Url

variable {c : Char} {cs ds scheme rest : List Char} {names : List (List Char)} {s : String}
  {u : Url}

/-! ### Reading a text with something behind it -/

theorem drop_length_takeWhile (p : Char → Bool) (cs : List Char) :
    cs.drop (cs.takeWhile p).length = cs.dropWhile p := by
  induction cs with
  | nil => rfl
  | cons c cs ih =>
    by_cases hc : p c = true
    · simp [hc, ih]
    · simp [hc]

theorem dropWhile_eq_self {p : Char → Bool} (h : ∀ c ∈ cs.head?, p c = false) :
    cs.dropWhile p = cs := by
  cases cs with
  | nil => rfl
  | cons c cs => exact List.dropWhile_cons_of_neg (by simp [h c rfl])

theorem getLast?_dropWhile {p : Char → Bool} (h : c ∈ (cs.dropWhile p).getLast?) :
    c ∈ cs.getLast? := by
  rw [← List.takeWhile_append_dropWhile (p := p) (l := cs), List.getLast?_append, Option.mem_def,
    Option.mem_def.1 h, Option.some_or]

theorem tidy_of_closed (h : ∀ c ∈ cs.getLast?, isMargin c = false) :
    tidy cs = counted (cs.dropWhile isMargin) := by
  rw [tidy, dropWhile_eq_self, List.reverse_reverse, counted]
  intro c hc
  rw [List.head?_reverse] at hc
  exact h c (getLast?_dropWhile hc)

theorem tidy_append (hcs : ∀ c ∈ cs.getLast?, isMargin c = false)
    (hfirst : ∀ c ∈ ds.head?, isMargin c = false) (hlast : ∀ c ∈ ds.getLast?, isMargin c = false) :
    tidy (cs ++ ds) = tidy cs ++ counted ds := by
  have hclosed : ∀ c ∈ (cs ++ ds).getLast?, isMargin c = false := by
    intro c hc
    rw [List.getLast?_append, Option.mem_def, Option.or_eq_some_iff] at hc
    rcases hc with hc | ⟨-, hc⟩
    · exact hlast c hc
    · exact hcs c hc
  rw [tidy_of_closed hclosed, tidy_of_closed hcs, List.dropWhile_append]
  split
  case isTrue hempty =>
    rw [List.isEmpty_iff.1 hempty, dropWhile_eq_self hfirst]
    rfl
  case isFalse => exact List.filter_append ..

def isSchemeChar (c : Char) : Bool :=
  c.isAlphanum || c = '+' || c = '-' || c = '.'

theorem scheme?_eq (cs : List Char) :
    scheme? cs = match (cs.takeWhile isSchemeChar).head?, cs.dropWhile isSchemeChar with
      | some c, ':' :: rest =>
        if c.isAlpha then some ((cs.takeWhile isSchemeChar).map Char.toLower, rest) else none
      | _, _ => none := by
  rw [← drop_length_takeWhile]
  rfl

theorem scheme?_eq_some_iff : scheme? cs = some (scheme, rest) ↔
    ∃ c ∈ (cs.takeWhile isSchemeChar).head?, c.isAlpha = true ∧
      (cs.takeWhile isSchemeChar).map Char.toLower = scheme ∧
      cs.dropWhile isSchemeChar = ':' :: rest := by
  rw [scheme?_eq]
  constructor
  · intro h
    split at h
    case h_1 c rest' hname hrest =>
      split at h
      case isTrue hletter =>
        cases h
        exact ⟨c, hname, hletter, rfl, hrest⟩
      case isFalse => cases h
    case h_2 => cases h
  · rintro ⟨c, hname, hletter, rfl, hrest⟩
    rw [Option.mem_def.1 hname, hrest]
    exact if_pos hletter

theorem scheme?_append (h : scheme? cs = some (scheme, rest)) (ds : List Char) :
    scheme? (cs ++ ds) = some (scheme, rest ++ ds) := by
  rw [scheme?_eq_some_iff] at h ⊢
  obtain ⟨c, hname, hletter, hscheme, hrest⟩ := h
  have hstops : ¬ (cs.takeWhile isSchemeChar).length = cs.length := by
    intro hall
    rw [← drop_length_takeWhile, hall, List.drop_length] at hrest
    cases hrest
  rw [List.takeWhile_append, if_neg hstops, List.dropWhile_append, hrest]
  exact ⟨c, hname, hletter, hscheme, rfl⟩

theorem cutAt_append (h : c ∉ cs) (ds : List Char) :
    cutAt c (cs ++ ds) = (cs ++ (cutAt c ds).1, (cutAt c ds).2) := by
  have hall : ∀ d ∈ cs, decide (d ≠ c) = true := fun d hd => decide_eq_true fun hdc => h (hdc ▸ hd)
  simp only [cutAt, List.takeWhile_append_of_pos hall, List.length_append,
    List.drop_length_add_append]

/-! ### Schemes of the web -/

/-- A scheme of requests. -/
def IsWeb (scheme : List Char) : Prop :=
  scheme = "http".toList ∨ scheme = "https".toList

theorem IsWeb.isSpecial (h : IsWeb scheme) : isSpecial scheme = true := by
  rcases h with rfl | rfl <;> rfl

theorem IsWeb.ne_file (h : IsWeb scheme) : scheme ≠ "file".toList := by
  rcases h with rfl | rfl <;> decide

theorem location?_of_web (h : IsWeb scheme) (cs : List Char) :
    location? scheme cs =
      let behind := cs.dropWhile (isSlash true)
      (authority? scheme (behind.takeWhile fun c => !isSlash true c)).map fun (host, port) =>
        (some host, port,
          .segments (segmentsOf true ((behind.dropWhile fun c => !isSlash true c).drop 1))) := by
  simp only [location?, h.isSpecial, if_neg h.ne_file, true_or, if_true, drop_length_takeWhile]
  cases authority? scheme ((cs.dropWhile (isSlash true)).takeWhile fun c => !isSlash true c) with
  | none => rfl
  | some place => simp

theorem authority?_nil (h : IsWeb scheme) : authority? scheme [] = none := by
  simp [authority?, afterLast, hostPart, portOf?, h.isSpecial]

theorem location?_append (h : IsWeb scheme) {place : Option Host × Option Nat × Path}
    (hplace : location? scheme rest = some place)
    (hbare : ∀ c ∈ rest.dropWhile (isSlash true), isSlash true c = false) (cs : List Char) :
    location? scheme (rest ++ '/' :: cs) =
      some (place.1, place.2.1, .segments (segmentsOf true cs)) := by
  have hall : ∀ c ∈ rest.dropWhile (isSlash true), (!isSlash true c) = true := fun c hc => by
    rw [hbare c hc, Bool.not_false]
  rw [location?_of_web h] at hplace ⊢
  simp only [List.takeWhile_eq_self_iff.2 hall] at hplace
  have hsome : rest.dropWhile (isSlash true) ≠ [] := by
    intro hnil
    rw [hnil, authority?_nil h] at hplace
    cases hplace
  obtain ⟨⟨host, port⟩, hauthority, rfl⟩ := Option.map_eq_some_iff.1 hplace
  have hbehind : (rest ++ '/' :: cs).dropWhile (isSlash true) =
      rest.dropWhile (isSlash true) ++ '/' :: cs := by
    rw [List.dropWhile_append, if_neg (by rwa [List.isEmpty_iff])]
  simp only [hbehind, List.takeWhile_append_of_pos hall, List.dropWhile_append_of_pos hall]
  have hslash : isSlash true '/' = true := by decide
  simp [hslash, hauthority]

theorem specialHost?_ne_plain {host : Host} (h : specialHost? cs = some host) (text : List Char) :
    host ≠ .plain text := by
  rintro rfl
  rw [specialHost?] at h
  split at h
  · cases h
  · simp only at h
    split at h
    · cases h
    · split at h
      · obtain ⟨n, -, hn⟩ := Option.map_eq_some_iff.1 h
        cases hn
      · cases h

theorem Host.ofText?_ne_plain {host : Host} (h : Host.ofText? true cs = some host)
    (text : List Char) : host ≠ .plain text := by
  rw [Host.ofText?.eq_def] at h
  split at h
  · split at h
    · obtain ⟨ps, -, rfl⟩ := Option.map_eq_some_iff.1 h
      exact Host.noConfusion
    · cases h
  · exact specialHost?_ne_plain h text

theorem location?_host (h : IsWeb scheme) {place : Option Host × Option Nat × Path}
    (hplace : location? scheme cs = some place) : place.1.any (· ≠ .plain []) = true := by
  rw [location?_of_web h] at hplace
  obtain ⟨⟨host, port⟩, hauthority, rfl⟩ := Option.map_eq_some_iff.1 hplace
  simp only [authority?, h.isSpecial, true_or, if_true, Option.bind_eq_bind,
    Option.bind_eq_some_iff] at hauthority
  obtain ⟨port', -, hauthority⟩ := hauthority
  split at hauthority
  · cases hauthority
  · obtain ⟨host', hhost, heq⟩ := Option.bind_eq_some_iff.1 hauthority
    cases heq
    simpa using Host.ofText?_ne_plain hhost []

/-! ### Servers -/

/-- The text behind the scheme of a URL and the slashes that follow it. -/
def authority (s : String) : List Char :=
  ((scheme? (tidy s.toList)).elim [] (·.2)).dropWhile (isSlash true)

/-- A text is the URL of a server: it can be read, its scheme is one of the web, no path, query or
fragment starts in it, and it does not end in a margin. -/
structure IsServer (s : String) (u : Url) : Prop where
  reads : Url.ofText? s = some u
  web : IsWeb u.scheme
  bare : ∀ c ∈ authority s, c ∉ ['/', '\\', '?', '#']
  closed : ∀ c ∈ s.toList.getLast?, isMargin c = false

theorem ofText?_of_scheme (h : scheme? (tidy s.toList) = some (scheme, rest)) :
    Url.ofText? s = (location? scheme (cutAt '?' (cutAt '#' rest).1).1).map fun place =>
      { scheme
        host := place.1
        port := place.2.1
        path := place.2.2
        query := (cutAt '?' (cutAt '#' rest).1).2.map (encode (escapesInQuery (isSpecial scheme)))
        fragment := (cutAt '#' rest).2.map (encode escapesInFragment) } := by
  rw [Url.ofText?, h]
  simp only [Option.bind_eq_bind, Option.bind_some]
  cases location? scheme (cutAt '?' (cutAt '#' rest).1).1 with
  | none => rfl
  | some place => rfl

theorem not_mem_marks :
    c ∉ ['/', '\\', '?', '#'] ↔ isSlash true c = false ∧ c ≠ '?' ∧ c ≠ '#' := by
  simp [isSlash, and_assoc]

theorem IsServer.parts (h : IsServer s u) : ∃ rest place,
    scheme? (tidy s.toList) = some (u.scheme, rest) ∧ '?' ∉ rest ∧ '#' ∉ rest ∧
      (∀ c ∈ rest.dropWhile (isSlash true), isSlash true c = false) ∧
      location? u.scheme rest = some place ∧ u.host = place.1 ∧ u.port = place.2.1 := by
  cases hscheme : scheme? (tidy s.toList) with
  | none =>
    have hreads := h.reads
    rw [Url.ofText?, hscheme] at hreads
    cases hreads
  | some parts =>
    obtain ⟨scheme, rest⟩ := parts
    have hbare : ∀ c ∈ rest.dropWhile (isSlash true), c ∉ ['/', '\\', '?', '#'] := by
      have hbare := h.bare
      rwa [authority, hscheme] at hbare
    have hmark : ∀ c ∈ rest, c ≠ '?' ∧ c ≠ '#' := by
      intro c hc
      rw [← List.takeWhile_append_dropWhile (p := isSlash true) (l := rest), List.mem_append] at hc
      rcases hc with hc | hc
      · have hslash := List.mem_takeWhile_imp hc
        constructor <;> rintro rfl <;> exact absurd hslash (by decide)
      · exact (not_mem_marks.1 (hbare c hc)).2
    have hquery : '?' ∉ rest := fun hmem => (hmark _ hmem).1 rfl
    have hfragment : '#' ∉ rest := fun hmem => (hmark _ hmem).2 rfl
    have hreads := h.reads
    rw [ofText?_of_scheme hscheme, cutAt_of_not_mem hfragment, cutAt_of_not_mem hquery] at hreads
    obtain ⟨place, hplace, rfl⟩ := Option.map_eq_some_iff.1 hreads
    exact ⟨rest, place, rfl, hquery, hfragment, fun c hc => (not_mem_marks.1 (hbare c hc)).1,
      hplace, rfl, rfl⟩

/-- Whether two URLs turn to the same server in the same way. -/
def SameServer (u v : Url) : Prop :=
  u.scheme = v.scheme ∧ u.host = v.host ∧ u.port = v.port

theorem IsServer.hasHost (h : IsServer s u) : u.hasHost = true := by
  obtain ⟨rest, place, -, -, -, -, hplace, hhost, -⟩ := h.parts
  rw [Url.hasHost, hhost]
  exact location?_host h.web hplace

theorem IsServer.ofText?_append (h : IsServer s u) {path : List Char}
    (hfirst : path.head? = some '/') (hlast : ∀ c ∈ path.getLast?, isMargin c = false) :
    ∃ v, Url.ofText? (s ++ String.ofList path) = some v ∧ SameServer v u ∧
      v.path = .segments (segmentsRead path) ∧
      v.query = (cutAt '?' (cutAt '#' (counted path)).1).2.map (encode (escapesInQuery true)) := by
  obtain ⟨rest, place, hscheme, hquery, hfragment, hbare, hplace, hhost, hport⟩ := h.parts
  obtain ⟨cs, rfl⟩ := List.head?_eq_some_iff.1 hfirst
  have hkept : front ('/' :: cs) = '/' :: (front ('/' :: cs)).drop 1 := rfl
  have hscheme' : scheme? (tidy (s ++ String.ofList ('/' :: cs)).toList) =
      some (u.scheme, rest ++ counted ('/' :: cs)) := by
    have hslash : ∀ c ∈ ('/' :: cs).head?, isMargin c = false := by
      rintro c ⟨⟩
      decide
    rw [String.toList_append, String.toList_ofList, tidy_append h.closed hslash hlast]
    exact scheme?_append hscheme _
  have hlocation := location?_append h.web hplace hbare ((front ('/' :: cs)).drop 1)
  rw [← hkept, front] at hlocation
  rw [ofText?_of_scheme hscheme', cutAt_append hfragment, cutAt_append hquery, hlocation,
    h.web.isSpecial]
  exact ⟨_, rfl, ⟨rfl, hhost.symm, hport.symm⟩, rfl, rfl⟩

/-- What a URL addresses: the names that its path consists of, if there is no query. -/
def Addresses (u : Url) (names : List (List Char)) : Prop :=
  u.query = none ∧ ∃ segs, u.path = .segments segs ∧ segs.map decode = names.map utf8

/-- Names that are written behind the URL of a server are addressed there exactly if each can stand
as a segment. -/
theorem IsServer.addresses_iff (h : IsServer s u) (hnames : names ≠ [])
    (hlast : ∀ c ∈ (Path.segments names).text.getLast?, isMargin c = false) :
    ∃ v, Url.ofText? (s ++ String.ofList (Path.segments names).text) = some v ∧ SameServer v u ∧
      (v.Addresses names ↔ ∀ name ∈ names, IsSegment name) := by
  have hfirst : (Path.segments names).text.head? = some '/' := by
    obtain ⟨name, rest, rfl⟩ := List.exists_cons_of_ne_nil hnames
    rfl
  obtain ⟨v, hread, hsame, hpath, hquery⟩ := h.ofText?_append hfirst hlast
  refine ⟨v, hread, hsame, ?_⟩
  constructor
  · rintro ⟨-, segs, hsegs, hdecode⟩
    cases hpath.symm.trans hsegs
    exact (reads_back_iff hnames).1 hdecode
  · intro hall
    obtain ⟨hcounted, hmark, hfragment⟩ := cut_text hall
    rw [hcounted, cutAt_of_not_mem hfragment, cutAt_of_not_mem hmark] at hquery
    exact ⟨hquery, _, hpath, (reads_back_iff hnames).2 hall⟩

end Snapshots.Url
