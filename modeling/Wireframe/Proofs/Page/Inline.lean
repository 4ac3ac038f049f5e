import Wireframe.Page.Widget
import Wireframe.Proofs.Page.Tags
import Wireframe.Proofs.Row.Inline

/-! Inline text as markup. The text outside the tags, unescaped, is the text that was given with the
delimiters of its spans left out, and the elements are the spans with what stands between their
delimiters (`showsSpans_inlineText`). Both are read off the characters of the markup, so nothing in
a text can pass for a tag or an entity of its own. -/

namespace Wireframe.Page

open Row (Span Spanned)

/-! ### Reading markup -/

/-- What stands outside of tags, given whether the text starts inside of one. -/
def outside : (inTag : Bool) → Text → Text
  | _, [] => []
  | true, c :: t => outside (decide (c ≠ '>')) t
  | false, c :: t => if c = '<' then outside true t else c :: outside false t

/-- The text without its tags. -/
def withoutTags (t : Text) : Text := outside false t

/-- An element in which there is no other, by its tags and the text between them. -/
structure Leaf where
  start : Text
  inside : Text
  stop : Text
  deriving DecidableEq

/-- What stands before the first `c`. -/
def upTo (c : Char) (t : Text) : Text := t.takeWhile (· ≠ c)

/-- What follows the first `c`. -/
def past (c : Char) (t : Text) : Text := (t.dropWhile (· ≠ c)).tail

/-- The elements of a text in which there are leaves only. Each is opened by a tag that is no end
tag and closed by the next tag. -/
def leavesIn : Text → List Leaf
  | [] => []
  | c :: t =>
    if c = '<' ∧ t.head? ≠ some '/' then
      ⟨upTo '>' t, unescape (upTo '<' (past '>' t)), upTo '>' (past '<' (past '>' t))⟩ :: leavesIn t
    else leavesIn t

theorem upTo_append {c : Char} {s : Text} (hs : c ∉ s) (t : Text) : upTo c (s ++ c :: t) = s :=
  Text.takeWhile_ne_append hs t

theorem past_append {c : Char} {s : Text} (hs : c ∉ s) (t : Text) : past c (s ++ c :: t) = t := by
  rw [past, Text.dropWhile_ne_append hs, List.tail_cons]

theorem Bare.withoutTags_append {s : Text} (hs : Bare s) (t : Text) :
    withoutTags (s ++ t) = s ++ withoutTags t := by
  obtain ⟨hs, -⟩ := hs
  induction s with
  | nil => rfl
  | cons c s ih =>
    rw [List.mem_cons, not_or] at hs
    rw [List.cons_append, withoutTags, outside, if_neg (Ne.symm hs.1), List.cons_append]
    exact congrArg (c :: ·) (ih hs.2)

theorem Bare.withoutTags_tag {tag : Text} (ht : Bare tag) (t : Text) :
    withoutTags ('<' :: (tag ++ '>' :: t)) = withoutTags t := by
  have hinside : ∀ s : Text, '>' ∉ s → outside true (s ++ '>' :: t) = outside false t := by
    intro s hs
    induction s with
    | nil => rfl
    | cons c s ih =>
      rw [List.mem_cons, not_or] at hs
      rw [List.cons_append, outside, decide_eq_true (Ne.symm hs.1), ih hs.2]
  rw [withoutTags, outside, if_pos rfl, hinside tag ht.2, withoutTags]

theorem Bare.leavesIn_append {s : Text} (hs : Bare s) (t : Text) :
    leavesIn (s ++ t) = leavesIn t := by
  obtain ⟨hs, -⟩ := hs
  induction s with
  | nil => rfl
  | cons c s ih =>
    rw [List.mem_cons, not_or] at hs
    rw [List.cons_append, leavesIn, if_neg fun h => hs.1 h.1.symm, ih hs.2]

/-! ### Leaves -/

namespace Leaf

/-- An element as it is printed. -/
def print (e : Leaf) : Text :=
  '<' :: (e.start ++ '>' :: (escape e.inside ++ '<' :: (e.stop ++ ['>'])))

/-- Tags that open and close a leaf: neither holds an angle bracket, and only the second starts with
a slash. -/
structure Paired (start stop : Text) : Prop where
  bareStart : Bare start
  bareStop : Bare stop
  opens : start ≠ [] ∧ start.head? ≠ some '/'
  closes : stop.head? = some '/'

variable {e : Leaf}

theorem withoutTags_print (h : Paired e.start e.stop) (t : Text) :
    withoutTags (e.print ++ t) = escape e.inside ++ withoutTags t := by
  have hprint : e.print ++ t =
      '<' :: (e.start ++ '>' :: (escape e.inside ++ '<' :: (e.stop ++ '>' :: t))) := by
    simp [print]
  rw [hprint, h.bareStart.withoutTags_tag, (bare_escape e.inside).withoutTags_append,
    h.bareStop.withoutTags_tag]

/-- The tags and the text of a leaf are read back. -/
theorem leavesIn_print (h : Paired e.start e.stop) (t : Text) :
    leavesIn (e.print ++ t) = e :: leavesIn t := by
  have hprint : e.print ++ t =
      '<' :: (e.start ++ '>' :: (escape e.inside ++ '<' :: (e.stop ++ '>' :: t))) := by
    simp [print]
  have hinside : Bare (escape e.inside) := bare_escape e.inside
  have hhead : (e.start ++ '>' :: (escape e.inside ++ '<' :: (e.stop ++ '>' :: t))).head? ≠
      some '/' := by
    obtain ⟨c, start, hc⟩ := List.exists_cons_of_ne_nil h.opens.1
    simpa [hc] using h.opens.2
  obtain ⟨stop, hstop⟩ := List.head?_eq_some_iff.1 h.closes
  have hrest : leavesIn (e.start ++ '>' :: (escape e.inside ++ '<' :: (e.stop ++ '>' :: t))) =
      leavesIn t := by
    rw [h.bareStart.leavesIn_append, leavesIn, if_neg (by simp), hinside.leavesIn_append, leavesIn,
      if_neg (by simp [hstop]), h.bareStop.leavesIn_append, leavesIn, if_neg (by simp)]
  rw [hprint, leavesIn, if_pos ⟨rfl, hhead⟩, hrest, upTo_append h.bareStart.2,
    past_append h.bareStart.2, upTo_append hinside.1, past_append hinside.1,
    upTo_append h.bareStop.2, unescape_escape]

end Leaf

/-! ### Spans -/

/-- The element of a span. -/
def spanLeaf : Span → Leaf
  | .link label => ⟨"a href=\"#\" class=\"wt-link\"".toList, label, "/a".toList⟩
  | .badge label => ⟨"span class=\"wt-badge\"".toList, label, "/span".toList⟩

theorem inside_spanLeaf (s : Span) : (spanLeaf s).inside = s.label := by
  cases s <;> rfl

theorem paired_spanLeaf (s : Span) : Leaf.Paired (spanLeaf s).start (spanLeaf s).stop := by
  cases s with
  | link label =>
    have h : Leaf.Paired "a href=\"#\" class=\"wt-link\"".toList "/a".toList :=
      ⟨⟨by decide, by decide⟩, ⟨by decide, by decide⟩, ⟨by decide, by decide⟩, by decide⟩
    exact h
  | badge label =>
    have h : Leaf.Paired "span class=\"wt-badge\"".toList "/span".toList :=
      ⟨⟨by decide, by decide⟩, ⟨by decide, by decide⟩, ⟨by decide, by decide⟩, by decide⟩
    exact h

/-- An element that holds a text alone is printed as a leaf. -/
theorem print_element_text (tag : Tag) (attributes : List Attribute) (t : Text) :
    (Markup.element tag attributes [.text t]).print =
      Leaf.print ⟨startTag tag attributes, t, '/' :: tag.name⟩ := by
  rw [print_element]
  simp [Markup.print, Markup.printAll, elementText, startTag, Leaf.print]

theorem print_spanMarkup (s : Span) : (spanMarkup s).print = (spanLeaf s).print := by
  cases s with
  | link label =>
    have hstart : startTag .a [valued "href" ['#'], valued "class" "wt-link".toList] =
        "a href=\"#\" class=\"wt-link\"".toList := by decide
    rw [spanMarkup, linkMarkup, print_element_text, hstart]
    rfl
  | badge label =>
    have hstart : startTag .span [valued "class" "wt-badge".toList] =
        "span class=\"wt-badge\"".toList := by decide
    rw [spanMarkup, badgeMarkup, classed, print_element_text, hstart]
    rfl

/-- The text of the markup of an inline text. -/
def inlineText (t : Text) : Text := Markup.printAll (inlineMarkup t)

/-- What is printed for a piece of an inline text. -/
def pieceText : Piece Span → Text
  | .plain c => escapeChar c
  | .span s => (spanLeaf s).print

theorem inlineText_eq (t : Text) : inlineText t = (Row.spans t).flatMap pieceText := by
  rw [inlineText, inlineMarkup]
  induction Row.spans t with
  | nil => rfl
  | cons piece ps ih =>
    rw [List.map_cons, Markup.printAll, ih, List.flatMap_cons]
    cases piece with
    | plain c => simp [Markup.print, escape, pieceText]
    | span s => rw [pieceText, print_spanMarkup]

/-- The span that a piece is, unless it is a character. -/
def span? : Piece Span → Option Span
  | .plain _ => none
  | .span s => some s

theorem bare_escapeChar (c : Char) : Bare (escapeChar c) :=
  ⟨not_mem_escapeChar c (by decide), not_mem_escapeChar c (by decide)⟩

theorem unescape_withoutTags_pieces (ps : List (Piece Span)) :
    unescape (withoutTags (ps.flatMap pieceText)) = ps.flatMap (Piece.text Span.label) := by
  induction ps with
  | nil => rfl
  | cons piece ps ih =>
    rw [List.flatMap_cons, List.flatMap_cons]
    cases piece with
    | plain c =>
      rw [pieceText, (bare_escapeChar c).withoutTags_append, unescape_escapeChar, ih]
      rfl
    | span s =>
      rw [pieceText, Leaf.withoutTags_print (paired_spanLeaf s), unescape_escape_append, ih,
        inside_spanLeaf]
      rfl

theorem leavesIn_pieces (ps : List (Piece Span)) :
    leavesIn (ps.flatMap pieceText) = (ps.filterMap span?).map spanLeaf := by
  induction ps with
  | nil => rfl
  | cons piece ps ih =>
    rw [List.flatMap_cons]
    cases piece with
    | plain c => rw [pieceText, (bare_escapeChar c).leavesIn_append, ih, List.filterMap_cons, span?]
    | span s =>
      rw [pieceText, Leaf.leavesIn_print (paired_spanLeaf s), ih, List.filterMap_cons, span?,
        List.map_cons]

/-- What markup shows of an inline text, given its pieces. -/
structure ShowsSpans (t : Text) (ps : List (Piece Span)) (markup : Text) : Prop where
  /-- The pieces are what is found from left to right. -/
  spanned : ∀ qs, Spanned t.trim qs ↔ qs = ps
  text : unescape (withoutTags markup) = ps.flatMap (Piece.text Span.label)
  leaves : leavesIn markup = (ps.filterMap span?).map spanLeaf
  escaped : (∀ s : Span, s.Proper → ¬ s.source <:+: t.trim) → markup = escape t.trim

/-- Inline text is shown as it is, and its spans as links and badges; unescaping undoes escaping. -/
theorem showsSpans_inlineText (t : Text) :
    ShowsSpans t (Row.spans t) (inlineText t) ∧ unescape (escape t) = t := by
  refine ⟨⟨fun qs => Row.spanned_iff, ?_, ?_, fun h => ?_⟩, unescape_escape t⟩
  · rw [inlineText_eq, unescape_withoutTags_pieces]
  · rw [inlineText_eq, leavesIn_pieces]
  · rw [inlineText_eq, Row.spans_of_forall h, List.flatMap_map]
    rfl

end Wireframe.Page
