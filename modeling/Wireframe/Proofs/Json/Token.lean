import Wireframe.Json.Print
import Wireframe.Proofs.Json.Numeral
import Wireframe.Proofs.Json.Quoted
import Wireframe.Proofs.Text.Join

/-! The tokens of values and the texts that spell them. Each value has its tokens in the order in
which they stand in any text of it (`Json.tokens`). A text spells some tokens if it consists of a
spelling of each with white space around them (`Written`); this grammar knows nothing of the
reader. Such a text is read as these tokens (`tokens?_of_written`), provided that no two numerals
are neighbours (`Apart`), which is so for the tokens of every value. A printed value spells its
tokens (`written_printAt`), if its numerals spell themselves (`Readable`). -/

namespace Wireframe

namespace Json

/-! ### Tokens of values -/

mutual

/-- The tokens of a value. -/
def tokens : Json → List Token
  | null => [.null]
  | bool b => [.bool b]
  | num n => [.num n]
  | str t => [.str t]
  | arr [] => [.openArr, .closeArr]
  | arr (j :: js) => .openArr :: (tokens j ++ (moreItems js ++ [.closeArr]))
  | obj [] => [.openObj, .closeObj]
  | obj ((k, j) :: ms) =>
    .openObj :: .str k :: .colon :: (tokens j ++ (moreMembers ms ++ [.closeObj]))

/-- The tokens of the items after the first. -/
def moreItems : List Json → List Token
  | [] => []
  | j :: js => .comma :: (tokens j ++ moreItems js)

/-- The tokens of the members after the first. -/
def moreMembers : List (Text × Json) → List Token
  | [] => []
  | (k, j) :: ms => .comma :: .str k :: .colon :: (tokens j ++ moreMembers ms)

end

mutual

/-- All numerals of the value are read back. -/
def Readable : Json → Prop
  | num n => n.Readable
  | arr js => ReadableItems js
  | obj ms => ReadableMembers ms
  | _ => True

def ReadableItems : List Json → Prop
  | [] => True
  | j :: js => Readable j ∧ ReadableItems js

def ReadableMembers : List (Text × Json) → Prop
  | [] => True
  | (_, j) :: ms => Readable j ∧ ReadableMembers ms

end

/-! ### Spellings -/

/-- The tokens that have one spelling each. -/
def fixedSpellings : List (Token × Text) :=
  [(.openArr, ['[']), (.closeArr, [']']), (.openObj, ['\x7b']), (.closeObj, ['\x7d']),
    (.comma, [',']), (.colon, [':']), (.null, "null".toList), (.bool true, "true".toList),
    (.bool false, "false".toList)]

/-- The spellings of a token. Numerals have to be in range. -/
inductive Token.Spelled : Token → Text → Prop
  | fixed {token : Token} {w : Text} (h : (token, w) ∈ fixedSpellings) : Token.Spelled token w
  | num {n : Numeral} {w : Text} (hn : n.Spelled w) (hr : n.inRange = true) :
      Token.Spelled (.num n) w
  | str {t w : Text} (ht : TextSpelled t w) : Token.Spelled (.str t) ('"' :: w ++ ['"'])

/-- The text spells the tokens, with white space around them. -/
inductive Written : List Token → Text → Prop
  | nil {space : Text} (hs : ∀ c ∈ space, isSpace c = true) : Written [] space
  | cons {space w t : Text} {token : Token} {ts : List Token} (hs : ∀ c ∈ space, isSpace c = true)
      (hw : token.Spelled w) (ht : Written ts t) : Written (token :: ts) (space ++ (w ++ t))

theorem Written.append {ts us : List Token} {t u : Text} (ht : Written ts t) (hu : Written us u) :
    Written (ts ++ us) (t ++ u) := by
  induction ht with
  | nil hs =>
    cases hu with
    | nil hs' => exact .nil (List.forall_mem_append.2 ⟨hs, hs'⟩)
    | cons hs' hw hu =>
      rw [← List.append_assoc]
      exact .cons (List.forall_mem_append.2 ⟨hs, hs'⟩) hw hu
  | cons hs hw _ ih =>
    rw [List.append_assoc, List.append_assoc]
    exact .cons hs hw ih

theorem Token.Spelled.written {token : Token} {w : Text} (h : token.Spelled w) :
    Written [token] w := by
  have hw : Written [token] ([] ++ (w ++ [])) := .cons (by simp) h (.nil (by simp))
  rwa [List.nil_append, List.append_nil] at hw

/-! ### Reading one token -/

theorem tokensAfter?_append (skipped rest : Text) :
    tokensAfter? skipped.length (skipped ++ rest) = tokens? rest := by
  induction skipped with
  | nil => rfl
  | cons c skipped ih => exact ih

theorem tokens?_of_read {c : Char} {t rest : Text} {token : Token} (hs : isSpace c = false)
    (hr : Token.read? (c :: (t ++ rest)) = some (token, t.length)) :
    tokens? (c :: (t ++ rest)) = (tokens? rest).map (token :: ·) := by
  rw [tokens?, tokensAfter?, hs]
  simp only [Bool.false_eq_true, if_false, hr, Option.bind_some, tokensAfter?_append]

theorem tokens?_ofChar (c : Char) (token : Token) (h : Token.ofChar? c = some token) (rest : Text) :
    tokens? (c :: rest) = (tokens? rest).map (token :: ·) := by
  refine tokens?_of_read (t := []) ?_ ?_ <;> unfold Token.ofChar? at h <;> split at h
  all_goals first | rfl | (obtain rfl := Option.some.inj h; rfl) | contradiction

theorem tokens?_space {c : Char} (h : isSpace c = true) (rest : Text) :
    tokens? (c :: rest) = tokens? rest := by
  rw [tokens?, tokensAfter?, if_pos h]
  rfl

/-- A string is read from each of its spellings. -/
theorem tokens?_text {t w : Text} (h : TextSpelled t w) (rest : Text) :
    tokens? ('"' :: w ++ ['"'] ++ rest) = (tokens? rest).map (.str t :: ·) := by
  refine tokens?_of_read (c := '"') (t := w ++ ['"']) (by decide) ?_
  have hu : upToQuote? ((w ++ ['"']) ++ rest) = some w := by
    rw [List.append_assoc]
    exact h.upToQuote? rest
  rw [Token.read?, hu, Option.bind_some, h.unescape?, Option.map_some, List.length_append]
  rfl

/-- The text does not start with a character that a numeral before it would take in. -/
def Boundary (rest : Text) : Prop := Text.Ends isNumeralChar rest

theorem numeralStart_facts {c : Char} (h : c = '-' ∨ c.isDigit = true) :
    isSpace c = false ∧ c ≠ '"' ∧ Token.ofChar? c = none := by
  have hne : ∀ d : Char, d ≠ '-' → d.isDigit = false → c ≠ d := by
    rintro d hd hd' rfl
    rcases h with rfl | h
    · exact hd rfl
    · rw [hd'] at h
      contradiction
  refine ⟨?_, hne '"' (by decide) (by decide), ?_⟩
  · simp [isSpace, hne ' ' (by decide) (by decide), hne '\t' (by decide) (by decide),
      hne '\n' (by decide) (by decide), hne '\r' (by decide) (by decide)]
  · unfold Token.ofChar?
    split <;> first | rfl | exact absurd rfl (hne _ (by decide) (by decide))

/-- A numeral is read from each of its spellings, which ends where the characters of numerals do. -/
theorem tokens?_numeral {n : Numeral} {w rest : Text} (h : n.Spelled w) (hr : n.inRange = true)
    (hb : Boundary rest) : tokens? (w ++ rest) = (tokens? rest).map (.num n :: ·) := by
  obtain ⟨c, t, rfl, hc⟩ := h.start
  obtain ⟨hs, hq, ho⟩ := numeralStart_facts hc
  have htake : (c :: (t ++ rest)).takeWhile isNumeralChar = c :: t :=
    Text.takeWhile_append h.chars hb
  refine tokens?_of_read hs ?_
  rw [Token.read?]
  · simp only [ho, if_pos hc, htake]
    rw [h.read, Option.bind_some, if_pos hr, List.length_cons]
    rfl
  · rintro rfl
    exact absurd rfl hq

/-! ### Reading what is written -/

/-- Whether a token is a numeral. -/
def Token.isNumeral : Token → Bool
  | num _ => true
  | _ => false

theorem tokens?_spaces {space : Text} (hs : ∀ c ∈ space, isSpace c = true) (rest : Text) :
    tokens? (space ++ rest) = tokens? rest := by
  induction space with
  | nil => rfl
  | cons c space ih =>
    obtain ⟨hc, hs⟩ := List.forall_mem_cons.1 hs
    rw [List.cons_append, tokens?_space hc, ih hs]

/-- A token is read from each of its spellings; a numeral must not be followed by more of its
kind of characters. -/
theorem Token.Spelled.tokens? {token : Token} {w rest : Text} (h : token.Spelled w)
    (hb : token.isNumeral = true → Boundary rest) :
    tokens? (w ++ rest) = (tokens? rest).map (token :: ·) := by
  cases h with
  | fixed h =>
    simp only [fixedSpellings, List.mem_cons, Prod.mk.injEq, List.not_mem_nil, or_false] at h
    rcases h with ⟨rfl, rfl⟩ | ⟨rfl, rfl⟩ | ⟨rfl, rfl⟩ | ⟨rfl, rfl⟩ | ⟨rfl, rfl⟩ | ⟨rfl, rfl⟩ |
      ⟨rfl, rfl⟩ | ⟨rfl, rfl⟩ | ⟨rfl, rfl⟩
    · exact tokens?_ofChar '[' .openArr rfl rest
    · exact tokens?_ofChar ']' .closeArr rfl rest
    · exact tokens?_ofChar '\x7b' .openObj rfl rest
    · exact tokens?_ofChar '\x7d' .closeObj rfl rest
    · exact tokens?_ofChar ',' .comma rfl rest
    · exact tokens?_ofChar ':' .colon rfl rest
    · exact tokens?_of_read (c := 'n') (t := "ull".toList) (by decide) rfl
    · exact tokens?_of_read (c := 't') (t := "rue".toList) (by decide) rfl
    · exact tokens?_of_read (c := 'f') (t := "alse".toList) (by decide) rfl
  | num hn hr => exact tokens?_numeral hn hr (hb rfl)
  | str ht => exact tokens?_text ht rest

/-- The tokens do not start with a numeral. -/
def NumeralFree (ts : List Token) : Prop := ∀ token ∈ ts.head?, token.isNumeral = false

/-- No numeral follows a numeral. -/
def Apart : List Token → Prop
  | [] => True
  | token :: ts => (token.isNumeral = true → NumeralFree ts) ∧ Apart ts

theorem Token.Spelled.boundary {token : Token} {w : Text} (h : token.Spelled w)
    (hn : token.isNumeral = false) (rest : Text) : Boundary (w ++ rest) := by
  cases h with
  | fixed h =>
    have hall : ∀ p ∈ fixedSpellings, p.2.head?.any (! isNumeralChar ·) = true := by decide
    obtain ⟨c, hc, hfree⟩ := (Option.any_eq_true ..).1 (hall _ h)
    obtain ⟨u, rfl⟩ := List.head?_eq_some_iff.1 hc
    intro d hd
    obtain rfl := Option.some.inj hd
    simpa using hfree
  | num => contradiction
  | str =>
    intro d hd
    obtain rfl : '"' = d := Option.some.inj hd
    decide

/-- A text of tokens that do not start with a numeral goes on with no character of one. -/
theorem Written.boundary {ts : List Token} {t : Text} (h : Written ts t) (hf : NumeralFree ts) :
    Boundary t := by
  have hspace : ∀ {space : Text}, (∀ c ∈ space, isSpace c = true) → ∀ rest, Boundary rest →
      Boundary (space ++ rest) := by
    intro space hs rest hr
    cases space with
    | nil => exact hr
    | cons c space =>
      intro d hd
      obtain rfl := Option.some.inj hd
      have hc := hs c List.mem_cons_self
      simp only [isSpace, Bool.or_eq_true, decide_eq_true_eq] at hc
      rcases hc with ((rfl | rfl) | rfl) | rfl <;> decide
  cases h with
  | nil hs =>
    have := hspace hs [] (by simp [Boundary, Text.Ends])
    rwa [List.append_nil] at this
  | cons hs hw _ => exact hspace hs _ (hw.boundary (hf _ rfl) _)

/-- What is written for tokens is read as these tokens. -/
theorem tokens?_of_written {ts : List Token} {t : Text} (h : Written ts t) (ha : Apart ts) :
    tokens? t = some ts := by
  induction h with
  | @nil space hs =>
    have := tokens?_spaces hs []
    rwa [List.append_nil] at this
  | cons hs hw ht ih =>
    rw [tokens?_spaces hs, hw.tokens? fun hn => ht.boundary (ha.1 hn), ih ha.2, Option.map_some]

/-! ### Neighbours -/

theorem apart_cons {token : Token} {ts : List Token} (ht : token.isNumeral = false)
    (h : Apart ts) : Apart (token :: ts) :=
  ⟨fun hn => absurd (ht.symm.trans hn) Bool.false_ne_true, h⟩

theorem numeralFree_cons {token : Token} {ts : List Token} (ht : token.isNumeral = false) :
    NumeralFree (token :: ts) := by
  intro next hn
  obtain rfl := Option.some.inj hn
  exact ht

theorem numeralFree_moreItems {js : List Json} {ts : List Token} (hf : NumeralFree ts) :
    NumeralFree (moreItems js ++ ts) := by
  cases js with
  | nil => exact hf
  | cons j js => exact numeralFree_cons rfl

theorem numeralFree_moreMembers {ms : List (Text × Json)} {ts : List Token} (hf : NumeralFree ts) :
    NumeralFree (moreMembers ms ++ ts) := by
  cases ms with
  | nil => exact hf
  | cons m ms => exact numeralFree_cons rfl

mutual

/-- The tokens of a value have no numerals for neighbours, nor has what follows them. -/
theorem apart_tokens (j : Json) {ts : List Token} (hf : NumeralFree ts) (h : Apart ts) :
    Apart (j.tokens ++ ts) := by
  cases j with
  | null | bool | num | str => exact ⟨fun _ => hf, h⟩
  | arr js =>
    have hclose : Apart (.closeArr :: ts) := apart_cons rfl h
    cases js with
    | nil => exact apart_cons rfl hclose
    | cons j js =>
      simp only [tokens, List.cons_append, List.append_assoc, List.nil_append]
      exact apart_cons rfl (apart_tokens j (numeralFree_moreItems (numeralFree_cons rfl))
        (apart_moreItems js (numeralFree_cons rfl) hclose))
  | obj ms =>
    have hclose : Apart (.closeObj :: ts) := apart_cons rfl h
    cases ms with
    | nil => exact apart_cons rfl hclose
    | cons m ms =>
      obtain ⟨k, j⟩ := m
      simp only [tokens, List.cons_append, List.append_assoc, List.nil_append]
      exact apart_cons rfl (apart_cons rfl (apart_cons rfl
        (apart_tokens j (numeralFree_moreMembers (numeralFree_cons rfl))
          (apart_moreMembers ms (numeralFree_cons rfl) hclose))))

theorem apart_moreItems (js : List Json) {ts : List Token} (hf : NumeralFree ts) (h : Apart ts) :
    Apart (moreItems js ++ ts) := by
  cases js with
  | nil => exact h
  | cons j js =>
    simp only [moreItems, List.cons_append, List.append_assoc]
    exact apart_cons rfl
      (apart_tokens j (numeralFree_moreItems hf) (apart_moreItems js hf h))

theorem apart_moreMembers (ms : List (Text × Json)) {ts : List Token} (hf : NumeralFree ts)
    (h : Apart ts) : Apart (moreMembers ms ++ ts) := by
  cases ms with
  | nil => exact h
  | cons m ms =>
    obtain ⟨k, j⟩ := m
    simp only [moreMembers, List.cons_append, List.append_assoc]
    exact apart_cons rfl (apart_cons rfl (apart_cons rfl
      (apart_tokens j (numeralFree_moreMembers hf) (apart_moreMembers ms hf h))))

end

/-- A text that spells the tokens of a value is read as these tokens. -/
theorem tokens?_of_written_tokens {j : Json} {t : Text} (h : Written j.tokens t) :
    tokens? t = some j.tokens := by
  have ha : Apart (j.tokens ++ []) := apart_tokens j (by simp [NumeralFree]) trivial
  rw [List.append_nil] at ha
  exact tokens?_of_written h ha

/-! ### Printed values -/

theorem written_newLine (level : Nat) : Written [] (newLine level) := by
  refine .nil fun c hc => ?_
  rcases List.mem_cons.1 hc with rfl | hc
  · decide
  · rw [List.eq_of_mem_replicate hc]
    decide

theorem written_quote (t : Text) : Written [.str t] (quote t) :=
  (Token.Spelled.str (textSpelled_escape t)).written

theorem written_fixed {token : Token} {w : Text} (h : (token, w) ∈ fixedSpellings) :
    Written [token] w := (Token.Spelled.fixed h).written

/-- A container with at least one line, between its brackets. -/
theorem written_enclose {opening closing : Char} {level : Nat} {first : Text} {more : List Text}
    {o c : Token} {ts us : List Token} (ho : (o, [opening]) ∈ fixedSpellings)
    (hc : (c, [closing]) ∈ fixedSpellings) (hf : Written ts first)
    (hm : Written us (more.flatMap ((',' :: newLine (level + 1)) ++ ·))) :
    Written (o :: (ts ++ (us ++ [c]))) (enclose opening closing level (first :: more)) := by
  have hend := (written_newLine level).append (written_fixed hc)
  have h := (written_fixed ho).append
    ((written_newLine (level + 1)).append (hf.append (hm.append hend)))
  simpa [enclose, Text.join_cons] using h

theorem written_member (k : Text) {t : Text} {ts : List Token} (h : Written ts t) :
    Written (.str k :: .colon :: ts) (quote k ++ [':', ' '] ++ t) := by
  have hspace : Written [] [' '] := .nil (by simp [isSpace])
  have hcolon : Written [.colon] [':'] := written_fixed (by decide)
  simpa using (written_quote k).append (hcolon.append (hspace.append h))

theorem written_comma {level : Nat} {t : Text} {ts : List Token} (h : Written ts t) :
    Written (.comma :: ts) ((',' :: newLine level) ++ t) := by
  have hcomma : Written [.comma] [','] := written_fixed (by decide)
  simpa using hcomma.append ((written_newLine level).append h)

mutual

/-- A printed value spells its tokens. -/
theorem written_printAt (level : Nat) (j : Json) (h : j.Readable) :
    Written j.tokens (printAt level j) := by
  cases j with
  | null => exact written_fixed (w := "null".toList) (by decide)
  | bool b =>
    cases b with
    | false => exact written_fixed (w := "false".toList) (by decide)
    | true => exact written_fixed (w := "true".toList) (by decide)
  | num n => exact (Token.Spelled.num h.spelled h.inRange).written
  | str t => exact written_quote t
  | arr js =>
    cases js with
    | nil => exact (written_fixed (w := ['[']) (by decide)).append (written_fixed (by decide))
    | cons j js =>
      exact written_enclose (by decide) (by decide) (written_printAt (level + 1) j h.1)
        (written_printItems (level + 1) js h.2)
  | obj ms =>
    cases ms with
    | nil => exact (written_fixed (w := ['\x7b']) (by decide)).append (written_fixed (by decide))
    | cons m ms =>
      obtain ⟨k, j⟩ := m
      exact written_enclose (by decide) (by decide)
        (written_member k (written_printAt (level + 1) j h.1))
        (written_printMembers (level + 1) ms h.2)

theorem written_printItems (level : Nat) (js : List Json) (h : ReadableItems js) :
    Written (moreItems js) ((printItems level js).flatMap ((',' :: newLine level) ++ ·)) := by
  cases js with
  | nil => exact .nil (by simp [printItems])
  | cons j js =>
    rw [printItems, List.flatMap_cons, moreItems, ← List.cons_append]
    exact (written_comma (written_printAt level j h.1)).append (written_printItems level js h.2)

theorem written_printMembers (level : Nat) (ms : List (Text × Json)) (h : ReadableMembers ms) :
    Written (moreMembers ms) ((printMembers level ms).flatMap ((',' :: newLine level) ++ ·)) := by
  cases ms with
  | nil => exact .nil (by simp [printMembers])
  | cons m ms =>
    obtain ⟨k, j⟩ := m
    rw [printMembers, List.flatMap_cons, moreMembers]
    exact (written_comma (written_member k (written_printAt level j h.1))).append
      (written_printMembers level ms h.2)

end

end Json

end Wireframe
