import Wireframe.Proofs.Row.Label

/-! Plain forms of cells. A label, a field, a button, an icon, a badge and a link each have a form
(`Formed`), and the plain form of a row of such cells is their forms with spaces between them
(`plain_join_of_formed`): no replacement goes from one cell to another, and none undoes another's
form. -/

namespace Wireframe.Row

open Text Widget

/-! ### Cells -/

/-- A cell and its plain form. -/
inductive Formed : Text → Text → Prop
  | label {t : Text} (h : Caption t) : Formed t t
  | input {name : Text} (h : Identifier name) (ht : name ∈ inputTypes) :
      Formed ('^' :: name) (bracketed name)
  | field {name : Text} (h : Identifier name) (ht : name ∉ inputTypes) :
      Formed ('^' :: name) (squeeze (humanize name ++ ": [text]".toList))
  | quotedButton {primary : Bool} {label : Text} (h : Caption label) :
      Formed (bangs primary ++ '"' :: (label ++ ['"'])) (plainButton primary label)
  | bareButton {primary : Bool} {word : Text} (h : Letters word) :
      Formed (bangs primary ++ word) (plainButton primary word)
  | icon {word : Text} (h : Letters word) : Formed ('i' :: ':' :: word) ('<' :: word ++ ['>'])
  | badge {label : Text} (h : Caption label) :
      Formed (Span.badge label).source ('(' :: label ++ [')'])
  | link {label : Text} (h : Caption label) : Formed (Span.link label).source label

/-- What the replacements make of a cell before its white space is collapsed. -/
structure Settles (cell raw form : Text) : Prop where
  passes : Passes (markSteps ++ [link.replace id]) cell raw
  pipe : '|' ∉ raw
  words_ne_nil : words raw ≠ []
  squeeze_eq : squeeze raw = form

section

variable {cell raw form label : Text} {primary : Bool}

/-- Words without underscores are what a cell settles to. -/
theorem Settles.of_worded (hp : Passes markSteps cell raw) (hl : '_' ∉ raw) (hpipe : '|' ∉ raw)
    (hw : Worded raw) : Settles cell raw raw where
  passes := hp.append (.cons (turns_link_of_notMem hl) .nil)
  pipe := hpipe
  words_ne_nil := hw.words_ne_nil
  squeeze_eq := hw.squeeze_eq

theorem settles_enclosed (lead trail : Text) (h : Caption label)
    (hlead : lead.all (fun c => ! blank c && c != '_' && c != '|') = true)
    (htrail : trail.all (fun c => ! blank c && c != '_' && c != '|') = true)
    (hp : Passes markSteps cell (lead ++ label ++ trail)) :
    Settles cell (lead ++ label ++ trail) (lead ++ label ++ trail) := by
  have hpipe : '|' ∉ label := h.labelChars.notMem (by decide) (by decide)
  simp only [List.all_eq_true, Bool.and_eq_true, Bool.not_eq_true', bne_iff_ne] at hlead htrail
  refine .of_worded hp ?_ ?_ ?_
  · simp only [List.mem_append, not_or]
    exact ⟨⟨fun hc => (hlead _ hc).1.2 rfl, h.underscore_notMem⟩, fun hc => (htrail _ hc).1.2 rfl⟩
  · simp only [List.mem_append, not_or]
    exact ⟨⟨fun hc => (hlead _ hc).2 rfl, hpipe⟩, fun hc => (htrail _ hc).2 rfl⟩
  · exact (h.worded.prepend fun c hc => (hlead c hc).1.1).append fun c hc => (htrail c hc).1.1

theorem settles_button (h : Caption label)
    (hp : Passes markSteps cell (plainButton primary label)) :
    Settles cell (plainButton primary label) (plainButton primary label) := by
  refine .of_worded hp ?_ ?_ (worded_plainButton h.worded)
  · rw [mem_plainButton (by decide)]
    exact h.underscore_notMem
  · rw [mem_plainButton (by decide)]
    exact h.labelChars.notMem (by decide) (by decide)

theorem letters_of_mem_inputTypes : ∀ name ∈ inputTypes, Letters name := by decide

theorem settles_link (h : Caption label) : Settles (Span.link label).source label label where
  passes := by
    have hsource : (Span.link label).source = link.opening ++ label ++ link.closing := by
      simp [Span.source, Row.link]
    have hmarks : Passes markSteps (Span.link label).source (Span.link label).source := by
      rw [hsource]
      exact passes_slice ['_'] ['_'] 0 7 h.labelChars.markChars_notMem (by decide)
    refine hmarks.append (.cons ?_ .nil)
    rw [hsource]
    exact turns_of_delimited (by decide) rfl rfl (List.length_pos_iff.2 h.worded.ne_nil)
      h.underscore_notMem
  pipe := h.labelChars.notMem (by decide) (by decide)
  words_ne_nil := h.worded.words_ne_nil
  squeeze_eq := h.worded.squeeze_eq

theorem settles_text {name : Text} (h : Identifier name) (ht : name ∉ inputTypes) :
    Settles ('^' :: name) (humanize name ++ ": [text]".toList)
      (squeeze (humanize name ++ ": [text]".toList)) where
  passes := by
    have hunder : '_' ∉ humanize name := fun hc =>
      (h.chars_humanize hc).elim (by decide) fun hc => hc.2 rfl
    exact (passes_text h ht).append (.cons (turns_link_of_notMem (by simpa using hunder)) .nil)
  pipe := by
    simpa using h.labelChars_humanize.notMem (by decide) (by decide)
  words_ne_nil := by
    have hwords : words (humanize name ++ ": [text]".toList) =
        words (humanize name ++ [':']) ++ words "[text]".toList := by
      rw [← words_append_cons (by decide : blank ' ' = true), List.append_assoc]
      rfl
    rw [hwords]
    exact List.append_ne_nil_of_right_ne_nil _ (by decide)
  squeeze_eq := rfl

theorem Formed.settles (h : Formed cell form) : ∃ raw, Settles cell raw form := by
  cases h with
  | label h =>
    refine ⟨_, .of_worded (passes_label h.labelChars.markChars_notMem) h.underscore_notMem ?_
      h.worded⟩
    exact h.labelChars.notMem (by decide) (by decide)
  | input h ht =>
    exact ⟨_, settles_enclosed ['['] [']'] (letters_of_mem_inputTypes _ ht).caption (by decide)
      (by decide) (passes_input h ht)⟩
  | field h ht => exact ⟨_, settles_text h ht⟩
  | quotedButton h =>
    exact ⟨_, settles_button h
      (passes_quotedButton h.labelChars.markChars_notMem h.worded.ne_nil)⟩
  | bareButton h =>
    exact ⟨_, settles_button h.caption (passes_bareButton h.caption.labelChars.markChars_notMem
      h.ne_nil fun c hc => isBareChar_of_isIconChar (h.iconChars c hc))⟩
  | icon h =>
    exact ⟨_, settles_enclosed ['<'] ['>'] h.caption (by decide) (by decide)
      (passes_icon h.caption.labelChars.markChars_notMem h.ne_nil h.iconChars)⟩
  | badge h =>
    exact ⟨_, settles_enclosed ['('] [')'] h (by decide) (by decide)
      (passes_badge h.labelChars.markChars_notMem (h.labelChars.notMem (by decide) (by decide)))⟩
  | link h => exact ⟨_, settles_link h⟩

end

/-! ### Rows -/

section

variable {cell form t : Text} {cells forms : List Text}

/-- What stands before the label or the name in a cell. -/
def beginnings : List Text :=
  [[], ['^'], ['!', '!', '"'], ['!', '"'], ['!', '!'], ['!'], ['i', ':'], ['\x60', '('], ['_']]

theorem Formed.exists_enclosed (h : Formed cell form) : ∃ lead label trail : Text,
    lead ∈ beginnings ∧ (∀ c ∈ label.head?, c.isAlpha = true) ∧ Worded label ∧
      trail.all (! blank ·) = true ∧ cell = lead ++ label ++ trail := by
  cases h with
  | label h => exact ⟨[], _, [], by decide, h.head, h.worded, by decide, by simp⟩
  | @input name h ht => exact ⟨['^'], name, [], by decide, h.letter, h.worded, by decide, by simp⟩
  | @field name h ht => exact ⟨['^'], name, [], by decide, h.letter, h.worded, by decide, by simp⟩
  | @quotedButton primary label h =>
    exact ⟨bangs primary ++ ['"'], label, ['"'], by cases primary <;> decide, h.head, h.worded,
      by decide, by simp⟩
  | @bareButton primary label h =>
    exact ⟨bangs primary, label, [], by cases primary <;> decide, h.caption.head, h.caption.worded,
      by decide, by simp⟩
  | @icon word h =>
    exact ⟨['i', ':'], word, [], by decide, h.caption.head, h.caption.worded, by decide, by simp⟩
  | @badge label h =>
    exact ⟨['\x60', '('], label, [')', '\x60'], by decide, h.head, h.worded, by decide,
      by simp [Span.source]⟩
  | link h =>
    exact ⟨['_'], _, ['_'], by decide, h.head, h.worded, by decide, by simp [Span.source]⟩

theorem Formed.worded (h : Formed cell form) : Worded cell := by
  obtain ⟨lead, label, trail, hlead, -, hlabel, htrail, rfl⟩ := h.exists_enclosed
  have hblank : beginnings.all (fun lead => lead.all (! blank ·)) = true := by decide
  exact hlabel.enclose lead trail (List.all_eq_true.1 hblank lead hlead) htrail

/-- A row that starts with a cell starts with no lead, no pipe and no text area. -/
theorem Formed.begins (h : Formed cell form) (rest : Text) :
    Ends isLead (cell ++ rest) ∧ Ends (· = '|') (cell ++ rest) ∧
      after? area (cell ++ rest) = none := by
  obtain ⟨lead, label, trail, hlead, hletter, hlabel, -, rfl⟩ := h.exists_enclosed
  obtain ⟨c, label, rfl⟩ := List.exists_cons_of_ne_nil hlabel.ne_nil
  have hc : c.isAlpha = true := hletter c rfl
  have hne : ∀ d : Char, d.isAlpha = false → c ≠ d :=
    fun d hd => ne_of_apply_ne Char.isAlpha (by simp [hc, hd])
  have hends : ∀ p : Char → Bool, p c = false →
      beginnings.all (fun lead => lead.head?.all (! p ·)) = true →
      Ends p (lead ++ c :: label ++ trail ++ rest) := by
    intro p hp hleads
    cases lead with
    | nil => exact ends_cons hp _
    | cons d lead =>
      have hd := List.all_eq_true.1 hleads _ hlead
      exact ends_cons (by simpa using hd) _
  refine ⟨hends isLead ?_ (by decide), hends (· = '|') (by simp [hne '|' rfl]) (by decide), ?_⟩
  · simp [isLead, digit_eq_false_of_isAlpha hc, hne '#' rfl, hne '-' rfl, hne '*' rfl]
  · have hcaret : '^' ≠ c := Ne.symm (hne '^' rfl)
    simp only [beginnings, List.mem_cons, List.not_mem_nil, or_false] at hlead
    rcases hlead with rfl | rfl | rfl | rfl | rfl | rfl | rfl | rfl | rfl <;>
      simp [area, after?, hcaret]

theorem worded_join_cellGap (hne : cells ≠ []) (h : ∀ cell ∈ cells, Worded cell) :
    Worded (join cellGap cells) := by
  induction cells with
  | nil => contradiction
  | cons first more ih =>
    obtain ⟨hfirst, hmore⟩ := List.forall_mem_cons.1 h
    cases more with
    | nil => rwa [join_singleton]
    | cons next more =>
      have hpipe : Worded ['|'] :=
        .of_isWord ⟨List.cons_ne_nil _ _, List.forall_mem_singleton.2 (by decide)⟩
      rw [join_cons_append]
      exact hfirst.append_space (hpipe.append_space (ih (List.cons_ne_nil next more) hmore))

theorem forall_worded_of_formed (h : List.Forall₂ Formed cells forms) :
    ∀ cell ∈ cells, Worded cell := by
  induction h with
  | nil => exact List.forall_mem_nil _
  | cons h _ ih => exact List.forall_mem_cons.2 ⟨h.worded, ih⟩

theorem exists_of_formed (h : List.Forall₂ Formed cells forms) : ∃ raws : List Text,
    List.Forall₂ (Passes (markSteps ++ [link.replace id])) cells raws ∧
      (∀ raw ∈ raws, '|' ∉ raw) ∧ (∀ list ∈ raws.map words, list ≠ []) ∧
      raws.map squeeze = forms := by
  induction h with
  | nil => exact ⟨[], .nil, by simp, by simp, rfl⟩
  | cons h _ ih =>
    obtain ⟨raw, hraw⟩ := h.settles
    obtain ⟨raws, hpasses, hpipes, hwords, rfl⟩ := ih
    refine ⟨raw :: raws, .cons hraw.passes hpasses, List.forall_mem_cons.2 ⟨hraw.pipe, hpipes⟩,
      List.forall_mem_cons.2 ⟨hraw.words_ne_nil, hwords⟩, ?_⟩
    rw [List.map_cons, hraw.squeeze_eq]

/-- Texts without pipes that stand between pipes are squeezed one by one. -/
theorem squeeze_join_cellGap {raws : List Text} (hpipes : ∀ raw ∈ raws, '|' ∉ raw)
    (hwords : ∀ list ∈ raws.map words, list ≠ []) :
    squeeze ((join cellGap raws).flatMap fun c => if c = '|' then [' '] else [c]) =
      join [' '] (raws.map squeeze) := by
  have hmap : (raws.map fun t => t.flatMap fun c => if c = '|' then [' '] else [c]) = raws := by
    conv_rhs => rw [← List.map_id raws]
    exact List.map_congr_left fun raw hraw => flatMap_of_pipe_notMem (hpipes raw hraw)
  have hgap : cellGap.flatMap (fun c => if c = '|' then [' '] else [c]) = [' ', ' ', ' '] := rfl
  have hblanks : ∀ c ∈ [' ', ' ', ' '], blank c = true := by simp; decide
  rw [flatMap_join, hmap, hgap, squeeze, words_join_blanks (List.cons_ne_nil _ _) hblanks,
    List.flatMap_def, ← join_map_join [' '] hwords, List.map_map]
  rfl

theorem foldl_of_passes (h : List.Forall₂ (Passes (markSteps ++ [link.replace id])) cells forms) :
    link.replace id (markSteps.foldl (fun t step => step t) (join cellGap cells)) =
      join cellGap forms := by
  have hcellwise : ∀ f ∈ markSteps ++ [link.replace id], Cellwise f :=
    List.forall_mem_append.2 ⟨cellwise_of_guarded guarded_markSteps,
      List.forall_mem_singleton.2 guarded_link.toCellwise⟩
  rw [← foldl_join hcellwise h, List.foldl_append, List.foldl_cons, List.foldl_nil]

/-- The plain form of a row of cells is their forms with spaces between them. -/
theorem plain_join_of_formed (h : List.Forall₂ Formed cells forms) :
    plain (join cellGap cells) = join [' '] forms := by
  obtain ⟨raws, hpasses, hpipes, hwords, hforms⟩ := exists_of_formed h
  have hworded : ∀ cell ∈ cells, Worded cell := forall_worded_of_formed h
  cases h with
  | nil => rfl
  | @cons first form more forms hfirst hmore =>
    have hrow := worded_join_cellGap (List.cons_ne_nil _ _) hworded
    obtain ⟨hlead, hpipe, harea⟩ := hfirst.begins (more.flatMap (cellGap ++ ·))
    rw [← join_cons] at hlead hpipe harea
    rw [plain_of_begins hrow.trimmed hlead harea hpipe, foldl_of_passes hpasses,
      squeeze_join_cellGap hpipes hwords, hforms]

/-- A row with a cell of each kind. -/
theorem plain_join_of_formed_sample :
    List.Forall₂ Formed
        ["Sign in".toList, "^date".toList, "^a__b".toList, "!!\"Go on\"".toList, "!ok".toList,
          "i:x".toList, "\x60(b c)\x60".toList, "_d e_".toList]
        ["Sign in".toList, "[date]".toList, "a b: [text]".toList, "[! Go on]".toList,
          "[ok]".toList, "<x>".toList, "(b c)".toList, "d e".toList] ∧
      plain "Sign in | ^date | ^a__b | !!\"Go on\" | !ok | i:x | \x60(b c)\x60 | _d e_".toList =
        "Sign in [date] a b: [text] [! Go on] [ok] <x> (b c) d e".toList := by
  have hcells := List.Forall₂.cons (@Formed.label "Sign in".toList (by decide)) <|
    .cons (@Formed.input "date".toList (by decide) (by decide)) <|
    .cons (@Formed.field "a__b".toList (by decide) (by decide)) <|
    .cons (@Formed.quotedButton true "Go on".toList (by decide)) <|
    .cons (@Formed.bareButton false "ok".toList (by decide)) <|
    .cons (@Formed.icon ['x'] (by decide)) <|
    .cons (@Formed.badge "b c".toList (by decide)) <|
    .cons (@Formed.link "d e".toList (by decide)) .nil
  refine ⟨hcells, Eq.trans (congrArg plain ?_) ((plain_join_of_formed hcells).trans ?_)⟩
  · decide
  · decide

end

end Wireframe.Row
