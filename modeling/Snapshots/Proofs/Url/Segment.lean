import Mathlib.Data.List.TakeWhile
import Snapshots.Proofs.Url.Path

/-! # Names as segments

A path is written with a slash in front of each name. Read again, its segments stand for these names
exactly if each name can stand as a segment as it is. Main statement: `reads_back_iff`.
-/

namespace Snapshots.Url

variable {c : Char} {cs : List Char} {segs names : List (List Char)}

/-! ### Segments -/

/-- Whether a character ends a segment where it stands, or is skipped there. -/
def breaksSegment (c : Char) : Bool :=
  ['/', '\\', '?', '#', '\t', '\n', '\r'].contains c

theorem breaksSegment_eq_false_iff : breaksSegment c = false ↔ isSlash true c = false ∧
    c ≠ '?' ∧ c ≠ '#' ∧ c ≠ '\t' ∧ c ≠ '\n' ∧ c ≠ '\r' := by
  simp [breaksSegment, isSlash, and_assoc]

/-- A text that stands for itself as a segment of a path. -/
structure IsSegment (cs : List Char) : Prop where
  unbroken : ∀ c ∈ cs, breaksSegment c = false
  literal : hasEscape cs = false
  not_dot : cs ≠ ['.']
  not_dots : cs ≠ ['.', '.']

theorem isSegment_iff : IsSegment cs ↔
    cs.any breaksSegment = false ∧ hasEscape cs = false ∧ cs ≠ ['.'] ∧ cs ≠ ['.', '.'] := by
  rw [List.any_eq_false]
  constructor
  · rintro ⟨hunbroken, hliteral, hdot, hdots⟩
    exact ⟨fun c hc => Bool.eq_false_iff.1 (hunbroken c hc), hliteral, hdot, hdots⟩
  · rintro ⟨hunbroken, hliteral, hdot, hdots⟩
    exact ⟨fun c hc => Bool.eq_false_iff.2 (hunbroken c hc), hliteral, hdot, hdots⟩

instance : DecidablePred IsSegment := fun _ => decidable_of_iff _ isSegment_iff.symm

/-! ### What is read of a path -/

def counted (cs : List Char) : List Char :=
  cs.filter fun c => c ≠ '\t' ∧ c ≠ '\n' ∧ c ≠ '\r'

def front (cs : List Char) : List Char :=
  (cutAt '?' (cutAt '#' (counted cs)).1).1

/-- The segments that are read where a path is written. -/
def segmentsRead (cs : List Char) : List (List Char) :=
  segmentsOf true ((front cs).drop 1)

theorem front_sublist (cs : List Char) : (front cs).Sublist cs :=
  (List.takeWhile_sublist _).trans ((List.takeWhile_sublist _).trans List.filter_sublist)

theorem cutAt_of_not_mem (h : c ∉ cs) : cutAt c cs = (cs, none) := by
  have hall : cs.takeWhile (· ≠ c) = cs :=
    List.takeWhile_eq_self_iff.2 fun d hd => decide_eq_true fun hdc => h (hdc ▸ hd)
  rw [cutAt, hall, List.drop_length]
  rfl

theorem counted_of_unbroken (h : ∀ c ∈ cs, c ≠ '\t' ∧ c ≠ '\n' ∧ c ≠ '\r') : counted cs = cs :=
  List.filter_eq_self.2 fun c hc => decide_eq_true (h c hc)

theorem of_mem_front (h : c ∈ front cs) :
    c ≠ '?' ∧ c ≠ '#' ∧ c ≠ '\t' ∧ c ≠ '\n' ∧ c ≠ '\r' := by
  have hcut := (List.takeWhile_prefix _).subset h
  have hquery := List.mem_takeWhile_imp h
  have hfragment := List.mem_takeWhile_imp hcut
  have hcounted := List.mem_filter.1 ((List.takeWhile_prefix _).subset hcut)
  exact ⟨of_decide_eq_true hquery, of_decide_eq_true hfragment, of_decide_eq_true hcounted.2⟩

/-! ### Names that are read back -/

theorem front_text (h : names ≠ []) :
    ∃ cs, front (Path.segments names).text = '/' :: cs := by
  obtain ⟨name, names, rfl⟩ := List.exists_cons_of_ne_nil h
  exact ⟨_, rfl⟩

theorem mem_text_of_mem {name : List Char} (hname : name ∈ names) (hc : c ∈ name) :
    c ∈ (Path.segments names).text :=
  List.mem_flatMap.2 ⟨name, hname, List.mem_cons_of_mem _ hc⟩

theorem weight_of_reads (h : segs.map decode = names.map utf8) :
    weight segs = (utf8 (Path.segments names).text).length := by
  induction names generalizing segs with
  | nil =>
    obtain rfl := List.map_eq_nil_iff.1 h
    rfl
  | cons name names ih =>
    obtain ⟨seg, segs, rfl, hseg, hsegs⟩ := List.map_eq_cons_iff.1 h
    rw [weight_cons, length_utf8_text_cons, hseg, ih hsegs]

theorem segmentsRead_cases {path : List Char} {pieces : List (List Char)}
    (h : front path = '/' :: cs) (hpieces : splitWhere (isSlash true) cs = pieces) :
    (front path = path ∧ segmentsRead path = pieces.map (encode escapesInPath) ∧
        (∀ piece ∈ pieces, hasEscape piece = false) ∧ ∀ seg ∈ segmentsRead path, IsPlain seg) ∨
      weight (segmentsRead path) < (utf8 path).length := by
  -- Cutting off, splitting, reading escapes and resolving dots each keep the octets or lose some.
  have hread : segmentsRead path = resolveFrom [] (pieces.map (encode escapesInPath)) := by
    rw [segmentsRead, h, ← hpieces]
    rfl
  have hsplit : (utf8 (Path.segments pieces).text).length ≤ (utf8 (front path)).length := by
    have hle := length_utf8_splitWhere_le (isSlash true) cs
    have hslash : String.utf8EncodeChar '/' = [0x2f] := rfl
    rw [hpieces] at hle
    simp only [h, utf8_cons, hslash, List.length_append, List.length_singleton]
    omega
  have hresolved := weight_resolveFrom_le [] (pieces.map (encode escapesInPath))
  rw [← hread, weight_nil, weight_map_encode] at hresolved
  have hfront := length_utf8_le (front_sublist path)
  rcases weight_cases pieces with ⟨hliteral, hweight⟩ | hweight
  · by_cases hplain : ∀ seg ∈ pieces.map (encode escapesInPath), IsPlain seg
    · have hsame : segmentsRead path = pieces.map (encode escapesInPath) :=
        hread.trans (resolveFrom_of_plain hplain [])
      rcases eq_or_length_utf8_lt (front_sublist path) with hfront | hfront
      · exact .inl ⟨hfront, hsame, hliteral, hsame ▸ hplain⟩
      · right
        omega
    · right
      have hlight := weight_resolveFrom_lt hplain []
      rw [← hread, weight_nil, weight_map_encode] at hlight
      omega
  · right
    omega

theorem isSegment_of_reads (hnames : names ≠ [])
    (h : (segmentsRead (Path.segments names).text).map decode = names.map utf8) :
    ∀ name ∈ names, IsSegment name := by
  obtain ⟨cs, hcs⟩ := front_text hnames
  have hweight := weight_of_reads h
  -- The segments weigh as much as the whole path, so nothing was cut off, resolved or unescaped.
  obtain ⟨hfront, hread, hliteral, hdots⟩ :=
    (segmentsRead_cases hcs rfl).resolve_right (by omega)
  have hpieces : splitWhere (isSlash true) cs = names := by
    apply utf8_injective.list_map
    rw [← h, hread, List.map_map]
    apply List.map_congr_left
    intro piece hpiece
    exact ((decode_encode piece).trans (decode_eq_utf8 (hliteral piece hpiece))).symm
  rw [hpieces] at hread hliteral
  intro name hname
  obtain ⟨hdot, hdots⟩ := hdots (encode escapesInPath name) (hread ▸ List.mem_map_of_mem hname)
  constructor
  · intro c hc
    have hslash := not_separates_of_mem_splitWhere (hpieces ▸ hname) c hc
    have hkept := of_mem_front (hfront ▸ mem_text_of_mem hname hc)
    exact breaksSegment_eq_false_iff.2 ⟨hslash, hkept⟩
  · exact hliteral name hname
  · rintro rfl
    exact absurd hdot (by decide)
  · rintro rfl
    exact absurd hdots (by decide)

theorem IsSegment.isPlain_encode (h : IsSegment cs) : IsPlain (encode escapesInPath cs) := by
  have hread : decode (encode escapesInPath cs) = utf8 cs :=
    (decode_encode cs).trans (decode_eq_utf8 h.literal)
  constructor
  · rw [Bool.eq_false_iff]
    intro hdot
    apply h.not_dot
    apply utf8_injective
    rw [← hread, decode_of_isDot hdot]
    rfl
  · rw [Bool.eq_false_iff]
    intro hdots
    apply h.not_dots
    apply utf8_injective
    rw [← hread, decode_of_isDotDot hdots]
    rfl

theorem cut_text (h : ∀ name ∈ names, IsSegment name) :
    counted (Path.segments names).text = (Path.segments names).text ∧
      '?' ∉ (Path.segments names).text ∧ '#' ∉ (Path.segments names).text := by
  have hmem : ∀ c ∈ (Path.segments names).text,
      c ≠ '?' ∧ c ≠ '#' ∧ c ≠ '\t' ∧ c ≠ '\n' ∧ c ≠ '\r' := by
    intro c hc
    obtain ⟨name, hname, hc⟩ := List.mem_flatMap.1 hc
    rcases List.mem_cons.1 hc with rfl | hc
    · decide
    · exact (breaksSegment_eq_false_iff.1 ((h name hname).unbroken c hc)).2
  exact ⟨counted_of_unbroken fun c hc => (hmem c hc).2.2, fun hq => (hmem _ hq).1 rfl,
    fun hf => (hmem _ hf).2.1 rfl⟩

theorem reads_of_isSegment (hnames : names ≠ []) (h : ∀ name ∈ names, IsSegment name) :
    (segmentsRead (Path.segments names).text).map decode = names.map utf8 := by
  obtain ⟨hcounted, hquery, hfragment⟩ := cut_text h
  have hfront : front (Path.segments names).text = (Path.segments names).text := by
    rw [front, hcounted, cutAt_of_not_mem hfragment, cutAt_of_not_mem hquery]
  have hslashes : ∀ name ∈ names, ∀ c ∈ name, isSlash true c = false := by
    intro name hname c hc
    exact (breaksSegment_eq_false_iff.1 ((h name hname).unbroken c hc)).1
  have hplain : ∀ seg ∈ names.map (encode escapesInPath), IsPlain seg := by
    intro seg hseg
    obtain ⟨name, hname, rfl⟩ := List.mem_map.1 hseg
    exact (h name hname).isPlain_encode
  have hsegments : segmentsRead (Path.segments names).text = names.map (encode escapesInPath) := by
    obtain ⟨name, rest, rfl⟩ := List.exists_cons_of_ne_nil hnames
    rw [List.forall_mem_cons] at hslashes
    rw [segmentsRead, hfront, Path.text_cons, List.drop_one, List.tail_cons, segmentsOf,
      splitWhere_text (by decide) hslashes.1 hslashes.2, resolve, resolveFrom_of_plain hplain,
      List.reverse_nil, List.nil_append]
  rw [hsegments, List.map_map]
  apply List.map_congr_left
  intro name hname
  exact (decode_encode name).trans (decode_eq_utf8 (h name hname).literal)

/-- Names behind slashes are read back exactly if each can stand as a segment. -/
theorem reads_back_iff (hnames : names ≠ []) :
    (segmentsRead (Path.segments names).text).map decode = names.map utf8 ↔
      ∀ name ∈ names, IsSegment name :=
  ⟨isSegment_of_reads hnames, reads_of_isSegment hnames⟩

end Snapshots.Url
