/-! # Blanks

The characters that separate words, and what is left of a text when blanks are trimmed or
taken as separators. Main statement: no word holds a blank.
-/

namespace Snapshots.Text

/-- Code points with the property `White_Space`, as closed ranges. -/
def blankRanges : List (Nat × Nat) :=
  [(0x09, 0x0D), (0x20, 0x20), (0x85, 0x85), (0xA0, 0xA0), (0x1680, 0x1680), (0x2000, 0x200A),
    (0x2028, 0x2029), (0x202F, 0x202F), (0x205F, 0x205F), (0x3000, 0x3000)]

def isBlank (c : Char) : Bool :=
  blankRanges.any fun r => r.1 ≤ c.toNat && c.toNat ≤ r.2

def dropBlanks (cs : List Char) : List Char :=
  cs.dropWhile isBlank

def dropEndWhile (p : Char → Bool) (cs : List Char) : List Char :=
  (cs.reverse.dropWhile p).reverse

def trimWhile (p : Char → Bool) (cs : List Char) : List Char :=
  dropEndWhile p (cs.dropWhile p)

def trim (s : String) : String :=
  String.ofList (trimWhile isBlank s.toList)

/-- The words of a text, given the letters of the word being read, last first. -/
def wordsFrom : List Char → List Char → List (List Char)
  | [], [] => []
  | word, [] => [word.reverse]
  | word, c :: cs =>
    if isBlank c then
      match word with
      | [] => wordsFrom [] cs
      | _ => word.reverse :: wordsFrom [] cs
    else wordsFrom (c :: word) cs

def words (cs : List Char) : List (List Char) :=
  wordsFrom [] cs

def isBlankText (s : String) : Bool :=
  s.toList.all isBlank

theorem wordsFrom_not_blank {word cs : List Char} (h : ∀ c ∈ word, isBlank c = false) :
    ∀ w ∈ wordsFrom word cs, ∀ c ∈ w, isBlank c = false := by
  fun_induction wordsFrom word cs with
  | case1 => simp
  | case2 word hne =>
    intro w hw c hc
    have hw' : w = word.reverse := by simpa using hw
    subst hw'
    exact h c (by simpa using hc)
  | case3 c cs hc ih => exact ih h
  | case4 word c cs hc hne ih =>
    intro w hw d hd
    rcases List.mem_cons.1 hw with rfl | hw
    · exact h d (by simpa using hd)
    · exact ih (by simp) w hw d hd
  | case5 word c cs hc ih =>
    refine ih fun d hd => ?_
    rcases List.mem_cons.1 hd with rfl | hd
    · simpa using hc
    · exact h d hd

theorem words_not_blank {cs w : List Char} (hw : w ∈ words cs) : ∀ c ∈ w, isBlank c = false :=
  wordsFrom_not_blank (by simp) w hw

end Snapshots.Text
