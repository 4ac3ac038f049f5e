/-!
Texts as lists of characters. White space is the Unicode property White_Space throughout the
library (`blank`). A text is trimmed at either end, split at separators (`splitBy`), read as words
(`words`) or as lines ended by CRLF, CR or LF (`lines`). The statements say what the operations
leave: `after?` takes off exactly a leading text (`after?_eq_some_iff`), no piece of a split holds a
separator (`eq_false_of_mem_splitBy`), and a word is not empty and holds no white space.
-/

namespace Wireframe

/-- A text is the list of its characters. -/
abbrev Text := List Char

/-- Whether a character lies in one of the given closed ranges of code points. -/
def inRanges (ranges : List (Nat × Nat)) (c : Char) : Bool :=
  ranges.any fun r => decide (r.1 ≤ c.toNat) && decide (c.toNat ≤ r.2)

/-! ### White space -/

/-- The code points with the Unicode property White_Space. -/
def blankRanges : List (Nat × Nat) :=
  [(0x9, 0xD), (0x20, 0x20), (0x85, 0x85), (0xA0, 0xA0), (0x1680, 0x1680), (0x2000, 0x200A),
    (0x2028, 0x2029), (0x202F, 0x202F), (0x205F, 0x205F), (0x3000, 0x3000)]

/-- White space in the sense of Unicode. -/
def blank (c : Char) : Bool := inRanges blankRanges c

theorem not_blank_of_isAlphanum {c : Char} (h : c.isAlphanum = true) : blank c = false := by
  have h : (decide (c.val ≥ 'A'.val ∧ c.val ≤ 'Z'.val) ||
      (decide (c.val ≥ 'a'.val) && decide (c.val ≤ 'z'.val)) || c.isDigit) = true := h
  simp only [Char.isDigit, Bool.or_eq_true, Bool.and_eq_true, decide_eq_true_eq,
    UInt32.le_iff_toNat_le, ge_iff_le] at h
  simp only [blank, inRanges, blankRanges, List.any_cons, List.any_nil, Bool.or_false,
    Bool.or_eq_false_iff, Bool.and_eq_false_imp, decide_eq_true_eq, decide_eq_false_iff_not]
  have hc : c.toNat = c.val.toNat := rfl
  simp at h
  omega

namespace Text

/-! ### Trimming -/

def trimStart (t : Text) : Text := t.dropWhile blank

def trimEnd (t : Text) : Text := (t.reverse.dropWhile blank).reverse

/-- The text without white space at either end. -/
def trim (t : Text) : Text := trimEnd (trimStart t)

/-- Whether the text holds nothing but white space. -/
def isBlank (t : Text) : Bool := t.all blank

/-- What follows a run of at least one character of a class at the start of the text. -/
def afterRun? (p : Char → Bool) : Text → Option Text
  | [] => none
  | c :: t => if p c then some (t.dropWhile p) else none

/-- What follows a run of at least one blank at the start of the text. -/
def afterBlanks? (t : Text) : Option Text := afterRun? blank t

/-! ### Taking off a leading or a trailing text -/

/-- What follows `lead` in a text that starts with it. -/
def after? : (lead t : Text) → Option Text
  | [], t => some t
  | _ :: _, [] => none
  | c :: lead, d :: t => if c = d then after? lead t else none

theorem after?_eq_some_iff {lead t rest : Text} : after? lead t = some rest ↔ t = lead ++ rest := by
  induction lead generalizing t with
  | nil => simp [after?]
  | cons c lead ih =>
    cases t with
    | nil => simp [after?]
    | cons d t =>
      by_cases h : c = d
      · subst h; simp [after?, ih]
      · simp [after?, h, Ne.symm h]

@[simp] theorem after?_append (lead rest : Text) : after? lead (lead ++ rest) = some rest :=
  after?_eq_some_iff.2 rfl

/-- The text without the character `c` at its start, where it has one. -/
def dropFirst (c : Char) (t : Text) : Text := if t.head? = some c then t.tail else t

/-- The text without the character `c` at its end, where it has one. -/
def dropLast (c : Char) (t : Text) : Text := if t.getLast? = some c then List.dropLast t else t

/-! ### Splitting -/

/-- Puts an element in front of the first list. -/
def growFirst {α : Type} (a : α) : List (List α) → List (List α)
  | [] => [[a]]
  | piece :: more => (a :: piece) :: more

/-- The pieces of a text between the characters that satisfy `p`. -/
def splitBy (p : Char → Bool) : Text → List Text
  | [] => [[]]
  | c :: t => if p c then [] :: splitBy p t else growFirst c (splitBy p t)

theorem growFirst_ne_nil {α : Type} (a : α) (pieces : List (List α)) : growFirst a pieces ≠ [] := by
  cases pieces <;> simp [growFirst]

@[simp] theorem flatten_growFirst {α : Type} (a : α) (pieces : List (List α)) :
    (growFirst a pieces).flatten = a :: pieces.flatten := by
  cases pieces <;> simp [growFirst]

theorem splitBy_ne_nil (p : Char → Bool) (t : Text) : splitBy p t ≠ [] := by
  cases t with
  | nil => simp [splitBy]
  | cons c t => by_cases h : p c = true <;> simp [splitBy, h, growFirst_ne_nil]

theorem mem_growFirst {α : Type} {c d : α} {pieces : List (List α)} {piece : List α}
    (hp : piece ∈ growFirst c pieces) (hd : d ∈ piece) : d = c ∨ ∃ q ∈ pieces, d ∈ q := by
  cases pieces with
  | nil => simp_all [growFirst]
  | cons q more =>
    rcases List.mem_cons.1 hp with rfl | h
    · rcases List.mem_cons.1 hd with h | h
      · exact .inl h
      · exact .inr ⟨q, by simp, h⟩
    · exact .inr ⟨piece, by simp [h], hd⟩

theorem eq_false_of_mem_splitBy {p : Char → Bool} {t piece : Text} {d : Char}
    (hp : piece ∈ splitBy p t) (hd : d ∈ piece) : p d = false := by
  induction t generalizing piece with
  | nil => simp_all [splitBy]
  | cons c t ih =>
    by_cases hc : p c = true
    · simp only [splitBy, hc, ↓reduceIte, List.mem_cons] at hp
      rcases hp with rfl | hp
      · simp at hd
      · exact ih hp hd
    · simp only [splitBy, hc] at hp
      rcases mem_growFirst hp hd with rfl | ⟨q, hq, hdq⟩
      · simpa using hc
      · exact ih hq hdq

/-- The maximal runs of characters other than white space. -/
def words (t : Text) : List Text := (splitBy blank t).filter (! ·.isEmpty)

theorem ne_nil_of_mem_words {t word : Text} (h : word ∈ words t) : word ≠ [] := by
  simp only [words, List.mem_filter] at h
  simpa using h.2

theorem not_blank_of_mem_words {t word : Text} {c : Char} (h : word ∈ words t) (hc : c ∈ word) :
    blank c = false :=
  eq_false_of_mem_splitBy (List.mem_filter.1 h).1 hc

/-- The pieces with `sep` between neighbours. -/
def join (sep : Text) (pieces : List Text) : Text := sep.intercalate pieces

/-- The words of a text with single spaces between them. -/
def squeeze (t : Text) : Text := join [' '] (words t)

/-- The lines of a text, each ended by CRLF, CR or LF or by the end of the text. -/
def lines : Text → List Text
  | [] => [[]]
  | '\r' :: '\n' :: t => [] :: lines t
  | c :: t => if c = '\r' ∨ c = '\n' then [] :: lines t else growFirst c (lines t)

/-- The text with `d` in place of each `c`. -/
def replaceChar (c d : Char) (t : Text) : Text := t.map fun e => if e = c then d else e

end Text

end Wireframe
