import Wireframe.Proofs.Source.Header
import Wireframe.Proofs.Source.Parse
import Wireframe.Proofs.Text.Run

/-! What a section is called. The pattern of a header with a ratio is a word, white space
and two numerals with a slash between them, in digits of any script (`HeaderParts.Formed`).
A text has this form in one way at most (`HeaderParts.Formed.unique`), so a section has a
ratio exactly when the numerals of that form are ASCII and write positive numbers below
2^32, and in all other cases it is called by the whole header (`readsHeader`). -/

namespace Wireframe

theorem digit_apart {c : Char} (h : digit c = true) : blank c = false ∧ c ≠ '/' := by
  have htable : digitBlocks.all (fun first => 0x2F < first ∧
      blankRanges.all fun r => first + 10 ≤ r.1 ∨ r.2 < first) = true := by decide
  obtain ⟨first, hfirst, hc⟩ := List.any_eq_true.1 h
  obtain ⟨hslash, hblank⟩ := of_decide_eq_true (List.all_eq_true.1 htable first hfirst)
  simp only [Bool.and_eq_true, decide_eq_true_eq] at hc
  refine ⟨List.any_eq_false.2 fun r hr => ?_, ?_⟩
  · have := of_decide_eq_true (List.all_eq_true.1 hblank r hr)
    simp only [Bool.and_eq_true, decide_eq_true_eq]
    omega
  · rintro rfl
    have : '/'.toNat = 0x2F := rfl
    omega

theorem positiveNumeral_iff {t : Text} {n : UInt32} :
    PositiveNumeral t n ↔ t ≠ [] ∧ (∀ c ∈ t, c.isDigit = true) ∧
      (0 < Text.value t ∧ Text.value t < UInt32.size) ∧ n.toNat = Text.value t := by
  constructor
  · intro h
    have hpos : 0 < n.toNat := UInt32.lt_iff_toNat_lt.1 h.pos
    have hlt := n.toNat_lt_size
    exact ⟨h.ne_nil, h.digits, by rw [h.value_eq]; exact ⟨hpos, hlt⟩, h.value_eq.symm⟩
  · rintro ⟨hne, hdigits, ⟨hpos, -⟩, hn⟩
    refine ⟨hne, hdigits, hn.symm, ?_⟩
    rw [UInt32.lt_iff_toNat_lt, hn]
    exact hpos

namespace Source

/-! ### The parts of a header -/

/-- A header with a ratio, taken apart: its name, the white space after it, and the numerals above
and below the slash. -/
@[ext]
structure HeaderParts where
  name : Text
  blanks : Text
  upper : Text
  lower : Text

namespace HeaderParts

def text (p : HeaderParts) : Text := p.name ++ p.blanks ++ p.upper ++ '/' :: p.lower

/-- The name is a word, white space follows it, and the numerals are in the given digits. -/
structure Formed (isDigit : Char → Bool) (p : HeaderParts) : Prop where
  name_ne_nil : p.name ≠ []
  name_not_blank : ∀ c ∈ p.name, blank c = false
  blanks_ne_nil : p.blanks ≠ []
  blanks_blank : ∀ c ∈ p.blanks, blank c = true
  upper_ne_nil : p.upper ≠ []
  upper_digits : ∀ c ∈ p.upper, isDigit c = true
  lower_ne_nil : p.lower ≠ []
  lower_digits : ∀ c ∈ p.lower, isDigit c = true

/-- The numerals write positive numbers below 2^32. -/
structure InRange (p : HeaderParts) : Prop where
  upper : 0 < Text.value p.upper ∧ Text.value p.upper < UInt32.size
  lower : 0 < Text.value p.lower ∧ Text.value p.lower < UInt32.size

/-- The ratio of the numerals, where both are numbers in range. -/
def ratio? (p : HeaderParts) : Option Ratio :=
  (readPositive? p.upper).bind fun n => (readPositive? p.lower).map fun d => ⟨n, d⟩

/-- The numbers of the ratio are those that the numerals write. -/
def Writes (p : HeaderParts) (r : Ratio) : Prop :=
  r.n.toNat = Text.value p.upper ∧ r.d.toNat = Text.value p.lower

variable {p q : HeaderParts}

theorem ratio?_eq_some_iff {r : Ratio} :
    p.ratio? = some r ↔ PositiveNumeral p.upper r.n ∧ PositiveNumeral p.lower r.d := by
  simp only [ratio?, Option.bind_eq_some_iff, Option.map_eq_some_iff, readPositive?_eq_some_iff]
  constructor
  · rintro ⟨n, hn, d, hd, rfl⟩
    exact ⟨hn, hd⟩
  · rintro ⟨hn, hd⟩
    exact ⟨r.n, hn, r.d, hd, rfl⟩

theorem Formed.of_isDigit (h : p.Formed Char.isDigit) : p.Formed digit :=
  { h with
    upper_digits := fun c hc => digit_of_isDigit (h.upper_digits c hc)
    lower_digits := fun c hc => digit_of_isDigit (h.lower_digits c hc) }

theorem text_eq (p : HeaderParts) :
    p.text = p.name ++ (p.blanks ++ (p.upper ++ '/' :: p.lower)) := by
  simp [text]

theorem Formed.name_run (h : p.Formed digit) : ∀ c ∈ p.name, (! blank c) = true :=
  fun c hc => by simp [h.name_not_blank c hc]

theorem Formed.upper_run (h : p.Formed digit) : ∀ c ∈ p.upper, decide (c ≠ '/') = true :=
  fun c hc => decide_eq_true (digit_apart (h.upper_digits c hc)).2

theorem Formed.ends_blanks (h : p.Formed digit) (rest : Text) :
    Text.Ends (! blank ·) (p.blanks ++ rest) := by
  obtain ⟨b, more, hb⟩ := List.exists_cons_of_ne_nil h.blanks_ne_nil
  rw [hb]
  exact Text.ends_cons (by simp [h.blanks_blank b (by simp [hb])]) _

theorem Formed.ends_upper (h : p.Formed digit) (rest : Text) :
    Text.Ends blank (p.upper ++ rest) := by
  obtain ⟨d, more, hd⟩ := List.exists_cons_of_ne_nil h.upper_ne_nil
  rw [hd]
  exact Text.ends_cons (digit_apart (h.upper_digits d (by simp [hd]))).1 _

/-- A text is a header with a ratio in one way only: each part ends where the next one starts. -/
theorem Formed.unique (hp : p.Formed digit) (hq : q.Formed digit) (h : p.text = q.text) :
    p = q := by
  rw [text_eq, text_eq] at h
  obtain ⟨hname, h⟩ :=
    Text.append_inj_of_ends hp.name_run hq.name_run (hp.ends_blanks _) (hq.ends_blanks _) h
  obtain ⟨hblanks, h⟩ :=
    Text.append_inj_of_ends hp.blanks_blank hq.blanks_blank (hp.ends_upper _) (hq.ends_upper _) h
  obtain ⟨hupper, h⟩ := Text.append_inj_of_ends hp.upper_run hq.upper_run
    (Text.ends_cons (by simp) _) (Text.ends_cons (by simp) _) h
  obtain ⟨-, hlower⟩ := List.cons.inj h
  exact HeaderParts.ext hname hblanks hupper hlower

end HeaderParts

/-! ### Headers -/

theorem ratioed_iff {t name : Text} {r : Ratio} :
    Ratioed t name r ↔ ∃ p : HeaderParts, p.Formed Char.isDigit ∧ p.InRange ∧ p.text = t ∧
      p.name = name ∧ p.Writes r := by
  constructor
  · rintro ⟨blanks, n, d, rfl, hne, hname, hbne, hblanks, hn, hd⟩
    obtain ⟨hnne, hnd, hnr, hnv⟩ := positiveNumeral_iff.1 hn
    obtain ⟨hdne, hdd, hdr, hdv⟩ := positiveNumeral_iff.1 hd
    exact ⟨⟨name, blanks, n, d⟩, ⟨hne, hname, hbne, hblanks, hnne, hnd, hdne, hdd⟩, ⟨hnr, hdr⟩,
      rfl, rfl, hnv, hdv⟩
  · rintro ⟨p, hp, hr, rfl, rfl, hn, hd⟩
    exact ⟨p.blanks, p.upper, p.lower, rfl, hp.name_ne_nil, hp.name_not_blank, hp.blanks_ne_nil,
      hp.blanks_blank, positiveNumeral_iff.2 ⟨hp.upper_ne_nil, hp.upper_digits, hr.upper, hn⟩,
      positiveNumeral_iff.2 ⟨hp.lower_ne_nil, hp.lower_digits, hr.lower, hd⟩⟩

theorem dropFirst_cons (c : Char) (t : Text) : Text.dropFirst c (c :: t) = t := by
  simp [Text.dropFirst]

theorem readHeader_eq_some_iff {rest name : Text} {r : Ratio} :
    readHeader ('=' :: rest) = (name, some r) ↔ Ratioed rest.trim name r := by
  rw [← readRatioed?_eq_some_iff (Text.trimmed_trim rest).1, readHeader, dropFirst_cons]
  cases readRatioed? rest.trim with
  | none => simp
  | some found => simp [Prod.ext_iff]

/-- A header without a ratio is the name as a whole. -/
theorem readHeader_of_not_ratioed {rest : Text} (h : ∀ name r, ¬ Ratioed rest.trim name r) :
    readHeader ('=' :: rest) = (rest.trim, none) := by
  have hnone : readRatioed? rest.trim = none := by
    cases hr : readRatioed? rest.trim with
    | none => rfl
    | some found => exact absurd (ratioed_of_readRatioed? (Text.trimmed_trim rest).1 hr) (h _ _)
  rw [readHeader, dropFirst_cons, hnone]

/-- A header in digits of any script is read by its numerals, and as a name where one of them is no
number in range. -/
theorem readHeader_of_formed {rest : Text} {p : HeaderParts} (hp : p.Formed digit)
    (ht : p.text = rest.trim) :
    readHeader ('=' :: rest) = p.ratio?.elim (rest.trim, none) fun r => (p.name, some r) := by
  cases hr : p.ratio? with
  | some r =>
    obtain ⟨hn, hd⟩ := HeaderParts.ratio?_eq_some_iff.1 hr
    rw [Option.elim_some, readHeader_eq_some_iff, ← ht]
    exact ⟨p.blanks, p.upper, p.lower, rfl, hp.name_ne_nil, hp.name_not_blank, hp.blanks_ne_nil,
      hp.blanks_blank, hn, hd⟩
  | none =>
    refine readHeader_of_not_ratioed fun name r hratioed => ?_
    obtain ⟨q, hq, hrange, hqt, -, hn, hd⟩ := ratioed_iff.1 hratioed
    obtain rfl : p = q := hp.unique hq.of_isDigit (ht.trans hqt.symm)
    have hsome : p.ratio? = some r := HeaderParts.ratio?_eq_some_iff.2
      ⟨positiveNumeral_iff.2 ⟨hq.upper_ne_nil, hq.upper_digits, hrange.upper, hn⟩,
        positiveNumeral_iff.2 ⟨hq.lower_ne_nil, hq.lower_digits, hrange.lower, hd⟩⟩
    rw [hr] at hsome
    contradiction

/-- How the line of a section is read, given what follows its equals sign. -/
structure ReadsHeader (rest : Text) : Prop where
  /-- The line is that of a section, whatever it says. -/
  section_read : Form.read ('=' :: rest) =
    .item (.sect (readHeader ('=' :: rest)).1 (readHeader ('=' :: rest)).2)
  /-- The section has a ratio exactly where the header has one in ASCII digits and in range. -/
  ratio_iff : ∀ name r, readHeader ('=' :: rest) = (name, some r) ↔
    ∃ p : HeaderParts, p.Formed Char.isDigit ∧ p.InRange ∧ p.text = rest.trim ∧ p.name = name ∧
      p.Writes r
  /-- The parts of a header are told by its text, in digits of any script. -/
  unique : ∀ p q : HeaderParts, p.Formed digit → q.Formed digit → p.text = rest.trim →
    q.text = rest.trim → p = q
  /-- Where a numeral is none of a number in range, the name is all that follows the equals sign. -/
  numerals : ∀ p : HeaderParts, p.Formed digit → p.text = rest.trim →
    readHeader ('=' :: rest) =
      p.ratio?.elim (rest.trim, none) fun r => (p.name, some r)
  /-- So it is in all other cases. -/
  otherwise : (∀ p : HeaderParts, p.Formed Char.isDigit → p.text = rest.trim → ¬ p.InRange) →
    readHeader ('=' :: rest) = (rest.trim, none)

theorem readsHeader (rest : Text) : ReadsHeader rest where
  section_read := read_eq_sect_iff.2 ⟨rfl, rfl⟩
  ratio_iff _ _ := readHeader_eq_some_iff.trans ratioed_iff
  unique _ _ hp hq hpt hqt := hp.unique hq (hpt.trans hqt.symm)
  numerals _ hp ht := readHeader_of_formed hp ht
  otherwise h := readHeader_of_not_ratioed fun _ _ hr => by
    obtain ⟨p, hp, hrange, ht, -⟩ := ratioed_iff.1 hr
    exact h p hp ht hrange

end Source

end Wireframe
