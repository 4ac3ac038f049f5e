import Wireframe.Proofs.Row.Replacement
import Wireframe.Proofs.Row.Widget

/-! Labels and names in their marks. A label or a name holds no character that tells the opening of
a mark (`LabelChars.markChars_notMem`), so each replacement either takes a marked label for its own
or passes it by (`Passes`), and passes by the forms that earlier ones have put in: what they leave
behind of the openings of marks stands before a space. -/

namespace Wireframe.Row

open Text Widget

/-! ### Labels and names -/

/-- One or more ASCII letters. -/
structure Letters (t : Text) : Prop where
  ne_nil : t ≠ []
  chars : ∀ c ∈ t, c.isAlpha = true

/-- Runs of ASCII letters with single spaces between them. -/
def Caption (t : Text) : Prop :=
  ∃ ws : List Text, ws ≠ [] ∧ (∀ w ∈ ws, Letters w) ∧ t = join [' '] ws

/-- The name of a field that starts with a letter. -/
structure Identifier (t : Text) : Prop extends FieldName t where
  letter : ∀ c ∈ t.head?, c.isAlpha = true

theorem letters_iff {t : Text} :
    Letters t ↔ (! t.isEmpty && t.all Char.isAlpha) = true := by
  rw [Bool.and_eq_true, Bool.not_eq_true', List.isEmpty_eq_false_iff, List.all_eq_true]
  exact ⟨fun h => ⟨h.ne_nil, h.chars⟩, fun h => ⟨h.1, h.2⟩⟩

instance (t : Text) : Decidable (Letters t) := decidable_of_iff _ letters_iff.symm

theorem caption_iff {t : Text} : Caption t ↔ ∀ w ∈ splitBy (· = ' ') t, Letters w := by
  constructor
  · rintro ⟨ws, hne, hws, rfl⟩
    rwa [splitBy_join rfl hne]
    intro w hw c hc
    rw [decide_eq_false_iff_not]
    rintro rfl
    exact absurd ((hws w hw).chars ' ' hc) (by decide)
  · exact fun h => ⟨_, splitBy_ne_nil _ t, h, (join_splitBy ' ' t).symm⟩

instance (t : Text) : Decidable (Caption t) := decidable_of_iff _ caption_iff.symm

theorem identifier_iff {t : Text} :
    Identifier t ↔ (t.head?.any Char.isAlpha && t.all isFieldChar) = true := by
  rw [Bool.and_eq_true, Option.any_eq_true, List.all_eq_true]
  constructor
  · rintro ⟨⟨hne, hchars⟩, hletter⟩
    obtain ⟨c, t, rfl⟩ := List.exists_cons_of_ne_nil hne
    exact ⟨⟨c, rfl, hletter c rfl⟩, hchars⟩
  · rintro ⟨⟨c, hhead, hc⟩, hchars⟩
    refine ⟨⟨?_, hchars⟩, fun d hd => ?_⟩
    · rintro rfl
      exact Option.not_mem_none c hhead
    · rw [Option.mem_unique hd hhead]
      exact hc

instance (t : Text) : Decidable (Identifier t) := decidable_of_iff _ identifier_iff.symm

section

variable {t name : Text} {c : Char}

theorem not_blank_of_isAlpha (h : c.isAlpha = true) : blank c = false :=
  not_blank_of_isAlphanum (by simp [Char.isAlphanum, h])

theorem isIconChar_of_isFieldChar (h : isFieldChar c = true) : isIconChar c = true := by
  rw [isIconChar, h, Bool.true_or]

theorem isIconChar_of_isAlpha (h : c.isAlpha = true) : isIconChar c = true :=
  isIconChar_of_isFieldChar (by simp [isFieldChar, Char.isAlphanum, h])

theorem not_blank_of_isIconChar (h : isIconChar c = true) : blank c = false := by
  rcases Bool.or_eq_true_iff.1 h with h | h
  · exact not_blank_of_isFieldChar h
  · rw [of_decide_eq_true h]
    decide

theorem isBareChar_of_isIconChar (h : isIconChar c = true) : isBareChar c = true := by
  have hpipe : c ≠ '|' := by
    rintro rfl
    exact absurd h (by decide)
  simp [isBareChar, hpipe, not_blank_of_isIconChar h]

/-- Spaces and characters of names. -/
def LabelChars (t : Text) : Prop := ∀ c ∈ t, c = ' ' ∨ isIconChar c = true

theorem LabelChars.notMem (h : LabelChars t) (hs : c ≠ ' ') (hc : isIconChar c = false) :
    c ∉ t := by
  intro hmem
  rcases h c hmem with rfl | hicon
  · exact hs rfl
  · rw [hc] at hicon
    contradiction

/-- There is no mark in a label or in a name. -/
theorem LabelChars.markChars_notMem (h : LabelChars t) : ∀ c ∈ markChars, c ∉ t := by
  have hchars : markChars.all (fun c => c != ' ' && ! isIconChar c) = true := by decide
  intro c hc
  have hc := List.all_eq_true.1 hchars c hc
  rw [Bool.and_eq_true, bne_iff_ne, Bool.not_eq_true'] at hc
  exact h.notMem hc.1 hc.2

theorem Letters.isWord (h : Letters t) : IsWord t :=
  ⟨h.ne_nil, fun c hc => not_blank_of_isAlpha (h.chars c hc)⟩

theorem Letters.caption (h : Letters t) : Caption t :=
  ⟨[t], List.cons_ne_nil _ _, List.forall_mem_singleton.2 h, (join_singleton _ _).symm⟩

theorem Caption.worded (h : Caption t) : Worded t := by
  obtain ⟨ws, hne, hws, rfl⟩ := h
  exact ⟨ws, hne, fun w hw => (hws w hw).isWord, rfl⟩

theorem Caption.head (h : Caption t) : ∀ c ∈ t.head?, c.isAlpha = true := by
  obtain ⟨ws, hne, hws, rfl⟩ := h
  obtain ⟨w, ws, rfl⟩ := List.exists_cons_of_ne_nil hne
  have hw := hws w List.mem_cons_self
  obtain ⟨c, w, rfl⟩ := List.exists_cons_of_ne_nil hw.ne_nil
  rw [join_cons]
  rintro d ⟨⟩
  exact hw.chars c List.mem_cons_self

theorem Caption.chars (h : Caption t) (hc : c ∈ t) : c = ' ' ∨ c.isAlpha = true := by
  obtain ⟨ws, -, hws, rfl⟩ := h
  rcases mem_of_mem_join hc with hc | hc
  · exact .inl (List.mem_singleton.1 hc)
  · obtain ⟨w, hw, hc⟩ := List.mem_flatten.1 hc
    exact .inr ((hws w hw).chars c hc)

theorem Caption.labelChars (h : Caption t) : LabelChars t := fun _ hc =>
  (h.chars hc).imp_right isIconChar_of_isAlpha

theorem Caption.underscore_notMem (h : Caption t) : '_' ∉ t := fun hc =>
  (h.chars hc).elim (by decide) (by decide)

theorem Letters.iconChars (h : Letters t) : ∀ c ∈ t, isIconChar c = true := fun _ hc =>
  isIconChar_of_isAlpha (h.chars _ hc)

theorem Identifier.worded (h : Identifier name) : Worded name :=
  .of_isWord ⟨h.ne_nil, fun c hc => not_blank_of_isFieldChar (h.chars c hc)⟩

theorem Identifier.labelChars (h : Identifier name) : LabelChars name := fun _ hc =>
  .inr (isIconChar_of_isFieldChar (h.chars _ hc))

theorem Identifier.chars_humanize (h : Identifier name) (hc : c ∈ humanize name) :
    c = ' ' ∨ isFieldChar c = true ∧ c ≠ '_' := by
  obtain ⟨d, hd, rfl⟩ := List.mem_map.1 hc
  by_cases hunder : d = '_'
  · exact .inl (if_pos hunder)
  · rw [if_neg hunder]
    exact .inr ⟨h.chars d hd, hunder⟩

theorem Identifier.labelChars_humanize (h : Identifier name) : LabelChars (humanize name) :=
  fun _ hc => (h.chars_humanize hc).imp_right fun hc => isIconChar_of_isFieldChar hc.1

end

/-! ### Buttons -/

/-- The plain form of a button. -/
def plainButton (primary : Bool) (label : Text) : Text :=
  if primary then emphasized label else bracketed label

section

variable {label : Text} {primary : Bool} {c : Char}

theorem worded_bracketed (h : Worded label) : Worded (bracketed label) :=
  h.enclose ['['] [']'] (by decide) (by decide)

theorem worded_plainButton (h : Worded label) : Worded (plainButton primary label) := by
  cases primary with
  | true =>
    have hbang : Worded ['!'] :=
      .of_isWord ⟨List.cons_ne_nil _ _, List.forall_mem_singleton.2 (by decide)⟩
    exact worded_bracketed (hbang.append_space h)
  | false => exact worded_bracketed h

theorem mem_plainButton (hc : c ∉ ['[', '!', ' ', ']']) :
    c ∈ plainButton primary label ↔ c ∈ label := by
  simp only [List.mem_cons, List.not_mem_nil, or_false, not_or] at hc
  cases primary <;> simp [plainButton, emphasized, bracketed, hc]

end

/-! ### Labels in their marks -/

section

variable {m : Mark} {f : Text → Text} {label name : Text} {primary : Bool}

theorem passes_label (h : ∀ c ∈ markChars, c ∉ label) : Passes markSteps label label := by
  have hpasses := passes_slice [] [] 0 7 h (by decide)
  rw [List.nil_append, List.append_nil] at hpasses
  exact hpasses

/-- Replacements pass by a label after a mark without a closing until that mark is replaced. -/
theorem passes_unclosed (i : ℕ) (hm : Opened m) (hclosing : m.closing = [])
    (hspace : m.body ' ' = false) (hearlier : (openings.take i).all (lacks m.opening) = true)
    (h : ∀ c ∈ markChars, c ∉ label) (hleast : m.least ≤ label.length)
    (hbody : ∀ c ∈ label, m.body c = true) :
    Passes (markSteps.take i ++ [m.replace f]) (m.opening ++ label) (f label) := by
  have hslice := passes_slice m.opening [] 0 i h (by rwa [List.append_nil])
  rw [List.append_nil] at hslice
  exact hslice.append (.cons (turns_of_unclosed hm hclosing hspace hleast hbody) .nil)

/-- Replacements pass by a label in a mark until that mark is replaced. -/
theorem passes_delimited {q : Char} {more : Text} (i : ℕ) (hm : Opened m)
    (hbody : m.body = fun c => decide (c ≠ q)) (hclosing : m.closing = q :: more)
    (hearlier : (openings.take i).all (lacks (m.opening ++ m.closing)) = true)
    (h : ∀ c ∈ markChars, c ∉ label) (hleast : m.least ≤ label.length) (hq : q ∉ label) :
    Passes (markSteps.take i ++ [m.replace f]) (m.opening ++ label ++ m.closing) (f label) :=
  (passes_slice m.opening m.closing 0 i h hearlier).append
    (.cons (turns_of_delimited hm hbody hclosing hleast hq) .nil)

theorem passes_badge (h : ∀ c ∈ markChars, c ∉ label) (hl : ')' ∉ label) :
    Passes markSteps (Span.badge label).source ('(' :: label ++ [')']) := by
  have hsource : (Span.badge label).source = badge.opening ++ label ++ badge.closing := by
    simp [Span.source, Row.badge]
  rw [hsource]
  exact (passes_delimited (m := { badge with least := 0 }) 0 (by decide) rfl rfl (by decide) h
    (Nat.zero_le _) hl).append (passes_slice ['('] [')'] 1 6 h (by decide))

/-- The mark before the label of a primary button is left behind with a space after it. -/
theorem passes_emphasized (h : ∀ c ∈ markChars, c ∉ label) :
    Passes (markSteps.drop 5) (emphasized label) (emphasized label) := by
  have hbang : '!' ∉ ' ' :: (label ++ [']']) := by simp [h '!' (by decide)]
  have hbutton : Turns (bareButton.replace bracketed) (emphasized label) (emphasized label) :=
    turns_of_once [] ['['] (by decide) rfl rfl (by decide) rfl (by decide) hbang
  exact .cons hbutton (passes_slice ['[', '!', ' '] [']'] 6 1 h (by decide))

theorem passes_quotedButton (h : ∀ c ∈ markChars, c ∉ label) (hne : label ≠ []) :
    Passes markSteps (bangs primary ++ '"' :: (label ++ ['"'])) (plainButton primary label) := by
  have hquote : '"' ∉ label := h '"' (by decide)
  have hleast : 1 ≤ label.length := List.length_pos_iff.2 hne
  cases primary with
  | true =>
    exact (passes_delimited (m := quotedPrimary) 2 (by decide) rfl rfl (by decide) h hleast
      hquote).append <| (passes_slice ['[', '!', ' '] [']'] 3 2 h (by decide)).append
        (passes_emphasized h)
  | false =>
    exact (passes_delimited (m := quotedButton) 3 (by decide) rfl rfl (by decide) h hleast
      hquote).append (passes_slice ['['] [']'] 4 3 h (by decide))

theorem passes_bareButton (h : ∀ c ∈ markChars, c ∉ label) (hne : label ≠ [])
    (hbare : ∀ c ∈ label, isBareChar c = true) :
    Passes markSteps (bangs primary ++ label) (plainButton primary label) := by
  have hleast : 1 ≤ label.length := List.length_pos_iff.2 hne
  cases primary with
  | true =>
    exact (passes_unclosed (m := barePrimary) 4 (by decide) rfl (by decide) (by decide) h hleast
      hbare).append (passes_emphasized h)
  | false =>
    exact (passes_unclosed (m := bareButton) 5 (by decide) rfl (by decide) (by decide) h hleast
      hbare).append (passes_slice ['['] [']'] 6 1 h (by decide))

theorem passes_icon (h : ∀ c ∈ markChars, c ∉ name) (hne : name ≠ [])
    (hicon : ∀ c ∈ name, isIconChar c = true) :
    Passes markSteps ('i' :: ':' :: name) ('<' :: name ++ ['>']) :=
  passes_unclosed (m := icon) 6 (by decide) rfl (by decide) (by decide) h
    (List.length_pos_iff.2 hne) hicon

/-- The replacements up to that of fields. -/
theorem passes_field (h : Identifier name) :
    Passes (markSteps.take 2) ('^' :: name) (plainField name) :=
  passes_unclosed (m := field) 1 (by decide) rfl (by decide) (by decide)
    h.labelChars.markChars_notMem (List.length_pos_iff.2 h.ne_nil) h.chars

theorem passes_input (h : Identifier name) (ht : name ∈ inputTypes) :
    Passes markSteps ('^' :: name) (bracketed name) := by
  have hfield := passes_field h
  rw [plainField, isInputType, if_pos (List.contains_iff_mem.2 ht)] at hfield
  exact hfield.append (passes_slice ['['] [']'] 2 5 h.labelChars.markChars_notMem (by decide))

/-- The colon after the name of a field is left behind with a space after it. -/
theorem passes_text (h : Identifier name) (ht : name ∉ inputTypes) :
    Passes markSteps ('^' :: name) (humanize name ++ ": [text]".toList) := by
  have hmarks := h.labelChars_humanize.markChars_notMem
  have hfield := passes_field h
  rw [plainField, isInputType, if_neg (mt List.contains_iff_mem.1 ht)] at hfield
  have hicon : Turns (icon.replace fun name => '<' :: name ++ ['>'])
      (humanize name ++ ": [text]".toList) (humanize name ++ ": [text]".toList) :=
    turns_of_once ['i'] (humanize name) (by decide) rfl rfl (by decide) rfl
      (hmarks ':' (by decide)) (by decide)
  exact hfield.append <|
    (passes_slice [] ": [text]".toList 2 4 hmarks (by decide)).append (.cons hicon .nil)

end

end Wireframe.Row
