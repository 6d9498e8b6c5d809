import Mathlib.Tactic.SplitIfs
import Snapshots.Json.Printer
import Snapshots.Json.Reading
import Snapshots.Proofs.Text.Decimal

/-! # JSON text read back

The text of a value says that value. Strings are read back character by character, whatever
characters they have; lists are read back by induction on their items.
-/

namespace Snapshots.Json

open Printer Text

namespace Reading

abbrev wellFormed (_ : Char) : Bool := false

theorem hexUnit_control {n : Nat} (h : n < 0x20) (rest : List Char) :
    hexUnit ('0' :: '0' :: Nat.digitChar (n / 16) :: Nat.digitChar (n % 16) :: rest) =
      .ok (n, rest) := by
  have h₀ : hexValue? '0' = some 0 := rfl
  have h₁ := hexValue?_digitChar (n / 16) (by omega)
  have h₂ := hexValue?_digitChar (n % 16) (by omega)
  have hn : ((0 * 16 + 0) * 16 + n / 16) * 16 + n % 16 = n := by omega
  simp only [hexUnit, List.take_succ_cons, List.take_zero, List.mapM_cons, List.mapM_nil, h₀, h₁,
    h₂, Option.pure_def, Option.bind_eq_bind, Option.bind_some, hn]
  rfl

theorem escapedChar_cases (c : Char) :
    (∃ e, escapedChar c = ['\\', e] ∧ simpleEscape? e = some c ∧ e ≠ 'u') ∨
      (c.toNat < 0x20 ∧ escapedChar c =
        ['\\', 'u', '0', '0', Nat.digitChar (c.toNat / 16), Nat.digitChar (c.toNat % 16)]) ∨
      (escapedChar c = [c] ∧ c ≠ '"' ∧ c ≠ '\\' ∧ ¬ c.toNat < 0x20) := by
  unfold escapedChar
  split_ifs with hquote hb hf hn hr ht hcontrol
  · rcases hquote with rfl | rfl
    · exact .inl ⟨_, rfl, rfl, by decide⟩
    · exact .inl ⟨_, rfl, rfl, by decide⟩
  · exact .inl ⟨_, rfl, by rw [hb]; rfl, by decide⟩
  · exact .inl ⟨_, rfl, by rw [hf]; rfl, by decide⟩
  · exact .inl ⟨_, rfl, by rw [hn]; rfl, by decide⟩
  · exact .inl ⟨_, rfl, by rw [hr]; rfl, by decide⟩
  · exact .inl ⟨_, rfl, by rw [ht]; rfl, by decide⟩
  · exact .inr (.inl ⟨hcontrol, rfl⟩)
  · obtain ⟨hquote, hslash⟩ := not_or.1 hquote
    exact .inr (.inr ⟨rfl, hquote, hslash, hcontrol⟩)

theorem escapedUnits_control {c : Char} (h : c.toNat < 0x20) (rest : List Char) :
    escapedUnits ('0' :: '0' :: Nat.digitChar (c.toNat / 16) :: Nat.digitChar (c.toNat % 16) ::
      rest) = .ok (c, rest) := by
  rw [escapedUnits, hexUnit_control h]
  have h₁ : ¬ (0xDC00 ≤ c.toNat ∧ c.toNat ≤ 0xDFFF) := by omega
  have h₂ : c.toNat < 0xD800 ∨ 0xDBFF < c.toNat := by omega
  simp only [bind, Except.bind, if_neg h₁, if_pos h₂, Char.ofNat_toNat]

theorem strictString_escapedChar (fuel : Nat) (c : Char) (rest acc : List Char) :
    strictString wellFormed (fuel + 1) (escapedChar c ++ rest) acc true =
      strictString wellFormed fuel rest (c :: acc) true := by
  rcases escapedChar_cases c with ⟨e, he, hs, hu⟩ | ⟨hc, he⟩ | ⟨he, hq, hb, hc⟩
  · rw [he]
    simp [strictString, hs]
  · rw [he]
    simp [strictString, escapedUnits_control hc, bind, Except.bind]
  · rw [he]
    simp [strictString, hq, hb, hc]

theorem skippedString_escapedChar (fuel : Nat) (c : Char) (rest : List Char) :
    skippedString (fuel + 1) (escapedChar c ++ rest) = skippedString fuel rest := by
  rcases escapedChar_cases c with ⟨e, he, hs, hu⟩ | ⟨hc, he⟩ | ⟨he, hq, hb, hc⟩
  · rw [he]
    simp [skippedString, hs]
  · rw [he]
    simp [skippedString, hexUnit_control hc, bind, Except.bind]
  · rw [he]
    simp [skippedString, hq, hb, hc]

theorem strictString_string {cs : List Char} {fuel : Nat} (h : cs.length < fuel)
    (rest acc : List Char) :
    strictString wellFormed fuel (cs.flatMap escapedChar ++ '"' :: rest) acc true =
      .ok (String.ofList (acc.reverse ++ cs), rest) := by
  induction cs generalizing fuel acc with
  | nil =>
    obtain ⟨k, rfl⟩ : ∃ k, fuel = k + 1 := ⟨fuel - 1, by omega⟩
    simp [strictString]
  | cons c cs ih =>
    obtain ⟨k, rfl⟩ : ∃ k, fuel = k + 1 := ⟨fuel - 1, by omega⟩
    rw [List.flatMap_cons, List.append_assoc, strictString_escapedChar,
      ih (by simpa using h), List.reverse_cons, List.append_assoc, List.singleton_append]

theorem skippedString_string {cs : List Char} {fuel : Nat} (h : cs.length < fuel)
    (rest : List Char) :
    skippedString fuel (cs.flatMap escapedChar ++ '"' :: rest) = .ok rest := by
  induction cs generalizing fuel with
  | nil =>
    obtain ⟨k, rfl⟩ : ∃ k, fuel = k + 1 := ⟨fuel - 1, by omega⟩
    simp [skippedString]
  | cons c cs ih =>
    obtain ⟨k, rfl⟩ : ∃ k, fuel = k + 1 := ⟨fuel - 1, by omega⟩
    rw [List.flatMap_cons, List.append_assoc, skippedString_escapedChar, ih (by simpa using h)]

theorem length_le_length_escaped (cs : List Char) :
    cs.length ≤ (cs.flatMap escapedChar).length := by
  induction cs with
  | nil => simp
  | cons c cs ih =>
    have hc : 0 < (escapedChar c).length := by
      rcases escapedChar_cases c with ⟨e, he, -⟩ | ⟨-, he⟩ | ⟨he, -⟩ <;> simp [he]
    simp only [List.length_cons, List.flatMap_cons, List.length_append]
    omega

theorem stringBody_string (s : String) (rest : List Char) :
    stringBody wellFormed (s.toList.flatMap escapedChar ++ '"' :: rest) = .ok (.ok s, rest) := by
  have hl := length_le_length_escaped s.toList
  have hfuel : s.toList.length <
      (s.toList.flatMap escapedChar ++ '"' :: rest).length + 1 := by
    simp only [List.length_append]
    omega
  rw [stringBody, skippedString_string hfuel, strictString_string hfuel]
  simp [Except.map]

end Reading

mutual

/-- Whether a value holds no numbers. -/
def numberFree : Json → Bool
  | .number _ => false
  | .array items => numberFreeItems items
  | .object members => numberFreeMembers members
  | _ => true

def numberFreeItems : List Json → Bool
  | [] => true
  | v :: vs => v.numberFree && numberFreeItems vs

def numberFreeMembers : List (String × Json) → Bool
  | [] => true
  | (_, v) :: ms => v.numberFree && numberFreeMembers ms

end

theorem numberFreeItems_of_forall {vs : List Json} (h : ∀ v ∈ vs, v.numberFree = true) :
    numberFreeItems vs = true := by
  induction vs with
  | nil => rfl
  | cons v vs ih =>
    rw [numberFreeItems, h v (by simp), ih fun w hw => h w (by simp [hw])]
    rfl

theorem numberFreeMembers_of_forall {ms : List (String × Json)}
    (h : ∀ m ∈ ms, m.2.numberFree = true) : numberFreeMembers ms = true := by
  induction ms with
  | nil => rfl
  | cons m ms ih =>
    obtain ⟨k, v⟩ := m
    rw [numberFreeMembers, h (k, v) (by simp), ih fun m hm => h m (by simp [hm])]
    rfl

theorem numberFree_array {vs : List Json} (h : ∀ v ∈ vs, v.numberFree = true) :
    (Json.array vs).numberFree = true := by
  rw [numberFree, numberFreeItems_of_forall h]

theorem numberFree_strings (ss : List String) : (Json.strings ss).numberFree = true := by
  refine numberFree_array fun v hv => ?_
  obtain ⟨s, -, rfl⟩ := List.mem_map.1 hv
  rfl

theorem numberFree_record {ms : List (String × Option Json)}
    (h : ∀ m ∈ ms, ∀ v, m.2 = some v → v.numberFree = true) : (record ms).numberFree = true := by
  rw [record, numberFree]
  refine numberFreeMembers_of_forall fun m hm => ?_
  obtain ⟨⟨k, o⟩, hmem, ho⟩ := List.mem_filterMap.1 hm
  obtain ⟨v, rfl, rfl⟩ := Option.map_eq_some_iff.1 ho
  exact h _ hmem v rfl

namespace Reading

theorem pretty_head {v : Json} (hv : v.numberFree = true) (level : Nat) :
    ∃ c cs, pretty level v = c :: cs ∧ isGap c = false ∧ c ≠ ']' := by
  cases v with
  | null => exact ⟨'n', _, rfl, rfl, by decide⟩
  | bool b => cases b <;> exact ⟨_, _, rfl, rfl, by decide⟩
  | number n => cases hv
  | string s => exact ⟨'"', _, rfl, rfl, by decide⟩
  | array items => cases items <;> exact ⟨'[', _, rfl, rfl, by decide⟩
  | object members => cases members <;> exact ⟨'{', _, rfl, rfl, by decide⟩

theorem dropWhile_newline (level : Nat) {c : Char} (hc : isGap c = false) (cs : List Char) :
    (newline level ++ c :: cs).dropWhile isGap = c :: cs := by
  have h : ∀ n, (List.replicate n ' ' ++ c :: cs).dropWhile isGap = c :: cs := by
    intro n
    induction n with
    | zero => simp [hc]
    | succ n ih => simpa [List.replicate_succ, isGap] using ih
  simpa [newline, isGap] using h (2 * level)

theorem length_newline (level : Nat) : (newline level).length = 2 * level + 1 := by
  simp [newline]

theorem value_gap (illFormed : Char → Bool) (fuel : Nat) (cs : List Char) :
    value illFormed fuel (' ' :: cs) = value illFormed fuel cs := by
  cases fuel with
  | zero => simp [value]
  | succ fuel =>
    have h : (' ' :: cs).dropWhile isGap = cs.dropWhile isGap := by simp [isGap]
    simp only [value, h]

mutual

/-- A printed value is read back, whatever follows it, if there is as much fuel as text. -/
theorem value_pretty (v : Json) (hv : v.numberFree = true) (level fuel : Nat) (rest : List Char)
    (hf : (pretty level v).length ≤ fuel) :
    value wellFormed fuel (pretty level v ++ rest) = (v.reading, some rest) := by
  obtain ⟨k, rfl⟩ : ∃ k, fuel = k + 1 := by
    obtain ⟨c, cs, hp, -⟩ := pretty_head hv level
    rw [hp, List.length_cons] at hf
    exact ⟨fuel - 1, by omega⟩
  match v with
  | .null => simp [value, pretty, isGap, literal, readingWith]
  | .bool b => cases b <;> simp [value, pretty, isGap, literal, readingWith]
  | .number n => cases hv
  | .string s =>
    simp [value, pretty, Printer.string, isGap, stringBody_string, readingWith]
  | .array [] =>
    obtain ⟨k, rfl⟩ : ∃ j, k = j + 1 := ⟨k - 1, by simp [pretty] at hf; omega⟩
    simp [value, pretty, isGap, items, readingWith, readingsWith]
  | .array (v :: vs) =>
    have hvs : v.numberFree = true ∧ numberFreeItems vs = true := by
      simpa [numberFree, numberFreeItems] using hv
    obtain ⟨c, cs, hp, hc, hb⟩ := pretty_head hvs.1 (level + 1)
    simp only [pretty, List.length_append, List.length_cons, length_newline] at hf
    obtain ⟨k, rfl⟩ : ∃ j, k = j + 2 := ⟨k - 2, by omega⟩
    have hfirst := value_pretty v hvs.1 (level + 1) k (prettyItems level vs ++ rest) (by omega)
    have hothers := items_pretty vs hvs.2 level k rest (by omega)
    rw [hp, List.cons_append] at hfirst
    have hdrop := dropWhile_newline (level + 1) hc (cs ++ (prettyItems level vs ++ rest))
    simp only [pretty, hp, value, List.cons_append, List.append_assoc, List.dropWhile_cons]
    simp [isGap, items, hdrop, hb, itemThen, hfirst, hothers, readingWith, readingsWith]
  | .object [] =>
    obtain ⟨k, rfl⟩ : ∃ j, k = j + 1 := ⟨k - 1, by simp [pretty] at hf; omega⟩
    simp [value, pretty, isGap, members, readingWith, memberReadingsWith]
  | .object ((key, v) :: ms) =>
    have hms : v.numberFree = true ∧ numberFreeMembers ms = true := by
      simpa [numberFree, numberFreeMembers] using hv
    simp only [pretty, List.length_append, List.length_cons, length_newline] at hf
    obtain ⟨k, rfl⟩ : ∃ j, k = j + 1 := ⟨k - 1, by omega⟩
    have hmember := memberThen_pretty key v hms.1 ms hms.2 level k rest (by omega)
    have hdrop := dropWhile_newline (level + 1) (c := '"') rfl (key.toList.flatMap escapedChar ++
      '"' :: ':' :: ' ' :: (pretty (level + 1) v ++ (prettyMembers level ms ++ rest)))
    simp only [Printer.string, List.cons_append, List.append_assoc, List.nil_append] at hmember
    simp only [pretty, Printer.string, value, List.cons_append, List.append_assoc,
      List.dropWhile_cons, List.nil_append]
    simp [isGap, members, hdrop, hmember, readingWith, memberReadingsWith]
termination_by fuel

theorem items_pretty (vs : List Json) (hv : numberFreeItems vs = true) (level fuel : Nat)
    (rest : List Char) (hf : (prettyItems level vs).length ≤ fuel) :
    items wellFormed fuel false (prettyItems level vs ++ rest) =
      (readingsWith .closed vs, .closed, some rest) := by
  match vs with
  | [] =>
    simp only [prettyItems, List.length_append, length_newline] at hf
    obtain ⟨k, rfl⟩ : ∃ k, fuel = k + 1 := ⟨fuel - 1, by omega⟩
    simp [prettyItems, items, dropWhile_newline level (c := ']') rfl, readingsWith]
  | v :: vs =>
    have hvs : v.numberFree = true ∧ numberFreeItems vs = true := by
      simpa [numberFreeItems] using hv
    obtain ⟨c, cs, hp, hc, hb⟩ := pretty_head hvs.1 (level + 1)
    simp only [prettyItems, List.length_append, List.length_cons, length_newline] at hf
    obtain ⟨k, rfl⟩ : ∃ k, fuel = k + 2 := ⟨fuel - 2, by omega⟩
    have hfirst := value_pretty v hvs.1 (level + 1) k (prettyItems level vs ++ rest) (by omega)
    have hothers := items_pretty vs hvs.2 level k rest (by omega)
    rw [hp, List.cons_append] at hfirst
    have hdrop := dropWhile_newline (level + 1) hc (cs ++ (prettyItems level vs ++ rest))
    simp only [prettyItems, hp, List.cons_append, List.append_assoc]
    simp [isGap, items, hdrop, hb, itemThen, hfirst, hothers, readingsWith]
termination_by fuel

theorem memberThen_pretty (key : String) (v : Json) (hv : v.numberFree = true)
    (ms : List (String × Json)) (hms : numberFreeMembers ms = true) (level fuel : Nat)
    (rest : List Char)
    (hf : 1 + (pretty (level + 1) v).length + (prettyMembers level ms).length ≤ fuel) :
    memberThen wellFormed fuel (Printer.string key ++ ':' :: ' ' ::
        (pretty (level + 1) v ++ (prettyMembers level ms ++ rest))) =
      ((.ok key, v.reading) :: memberReadingsWith .closed ms, .closed, some rest) := by
  obtain ⟨k, rfl⟩ : ∃ k, fuel = k + 1 := ⟨fuel - 1, by omega⟩
  have hfirst := value_pretty v hv (level + 1) k (prettyMembers level ms ++ rest) (by omega)
  have hothers := members_pretty ms hms level k rest (by omega)
  simp [Printer.string, memberThen, stringBody_string, isGap, value_gap, hfirst, hothers]
termination_by fuel

theorem members_pretty (ms : List (String × Json)) (hv : numberFreeMembers ms = true)
    (level fuel : Nat) (rest : List Char) (hf : (prettyMembers level ms).length ≤ fuel) :
    members wellFormed fuel false (prettyMembers level ms ++ rest) =
      (memberReadingsWith .closed ms, .closed, some rest) := by
  match ms with
  | [] =>
    simp only [prettyMembers, List.length_append, length_newline] at hf
    obtain ⟨k, rfl⟩ : ∃ k, fuel = k + 1 := ⟨fuel - 1, by omega⟩
    simp [prettyMembers, members, dropWhile_newline level (c := '}') rfl, memberReadingsWith]
  | (key, v) :: ms =>
    have hms : v.numberFree = true ∧ numberFreeMembers ms = true := by
      simpa [numberFreeMembers] using hv
    simp only [prettyMembers, List.length_append, List.length_cons, length_newline] at hf
    obtain ⟨k, rfl⟩ : ∃ k, fuel = k + 1 := ⟨fuel - 1, by omega⟩
    have hmember := memberThen_pretty key v hms.1 ms hms.2 level k rest (by omega)
    have hdrop := dropWhile_newline (level + 1) (c := '"') rfl (key.toList.flatMap escapedChar ++
      '"' :: ':' :: ' ' :: (pretty (level + 1) v ++ (prettyMembers level ms ++ rest)))
    simp only [Printer.string, List.cons_append, List.append_assoc, List.nil_append] at hmember
    simp only [prettyMembers, Printer.string, List.cons_append, List.append_assoc, List.nil_append]
    simp [isGap, members, hdrop, hmember, memberReadingsWith]
termination_by fuel

end

/-- The text of a value without numbers says that value and nothing else. -/
theorem ofText_toPretty {v : Json} (hv : v.numberFree = true) :
    ofText v.toPretty = (v.reading, false) := by
  have h := value_pretty v hv 0 (3 * (pretty 0 v).length + 3) [] (by omega)
  rw [List.append_nil] at h
  rw [ofText, toPretty, String.toList_ofList, ofChars, h]
  simp

end Reading

end Snapshots.Json
