import Wireframe.Proofs.Text.Mark
import Wireframe.Row.Inline

/-! Spans of an inline text. A span is read where its label stands between its delimiters
(`Span.read?_eq_some_iff`). The spans of a text are those that are found from left to right, each
after the end of the one before, and a text has one list of them (`spanned_iff`). -/

namespace Wireframe.Row

open Text

/-! ### Spans -/

namespace Span

/-- A span without its delimiters. -/
def label : Span → Text
  | link label => label
  | badge label => label

/-- A span as it is written: a link between underscores, a badge in parentheses between backticks. -/
def source : Span → Text
  | link label => '_' :: (label ++ ['_'])
  | badge label => '\x60' :: '(' :: (label ++ [')', '\x60'])

/-- The label is not empty, and the character that ends it is not in it. -/
def Proper : Span → Prop
  | link label => label ≠ [] ∧ '_' ∉ label
  | badge label => label ≠ [] ∧ ')' ∉ label

variable {s : Span} {t label rest : Text}

theorem read?_link_iff : Row.link.read? t = some (label, rest) ↔
    (link label).Proper ∧ t = (link label).source ++ rest := by
  rw [Mark.read?_delimited_iff (q := '_') rfl rfl, Row.link, Nat.one_le_iff_ne_zero,
    List.length_eq_zero_iff.ne, Proper, source, and_assoc]
  simp

theorem read?_badge_iff : Row.badge.read? t = some (label, rest) ↔
    (badge label).Proper ∧ t = (badge label).source ++ rest := by
  rw [Mark.read?_delimited_iff (q := ')') rfl rfl, Row.badge, Nat.one_le_iff_ne_zero,
    List.length_eq_zero_iff.ne, Proper, source, and_assoc]
  simp

/-- A span is read exactly where it is written. -/
theorem read?_eq_some_iff : read? t = some (s, rest) ↔ s.Proper ∧ t = s.source ++ rest := by
  cases s with
  | link l =>
    rw [← read?_link_iff, read?]
    cases hl : Row.link.read? t with
    | some found => simp [Prod.ext_iff]
    | none => cases hb : Row.badge.read? t <;> simp
  | badge l =>
    rw [← read?_badge_iff, read?]
    cases hl : Row.link.read? t with
    | some found =>
      -- a text that starts with an underscore does not start with a backtick
      obtain ⟨-, ht⟩ := read?_link_iff.1 hl
      have hnone : Row.badge.read? t ≠ some (l, rest) := by
        intro hb
        obtain ⟨-, hb⟩ := read?_badge_iff.1 hb
        simp [ht, source] at hb
      simp [hnone]
    | none => cases hb : Row.badge.read? t <;> simp [Prod.ext_iff]

theorem advances : Advances read? := by
  intro c t s rest h
  obtain ⟨-, ht⟩ := read?_eq_some_iff.1 h
  cases s with
  | link l => exact ⟨l ++ ['_'], (List.cons.inj ht).2.symm⟩
  | badge l => exact ⟨'(' :: (l ++ [')', '\x60']), (List.cons.inj ht).2.symm⟩

end Span

/-! ### Pieces -/

/-- The pieces of a text from left to right: a span where one is written, or else a character. -/
inductive Spanned : Text → List (Piece Span) → Prop
  | nil : Spanned [] []
  | span {s : Span} {rest : Text} {ps : List (Piece Span)} (hs : s.Proper)
      (h : Spanned rest ps) : Spanned (s.source ++ rest) (.span s :: ps)
  | plain {c : Char} {t : Text} {ps : List (Piece Span)}
      (hc : ∀ s : Span, s.Proper → ¬ s.source <+: c :: t) (h : Spanned t ps) :
      Spanned (c :: t) (.plain c :: ps)

theorem read?_eq_none_iff {t : Text} :
    Span.read? t = none ↔ ∀ s : Span, s.Proper → ¬ s.source <+: t := by
  rw [Option.eq_none_iff_forall_ne_some]
  constructor
  · rintro h s hs ⟨rest, ht⟩
    exact h (s, rest) (Span.read?_eq_some_iff.2 ⟨hs, ht.symm⟩)
  · rintro h ⟨s, rest⟩ hr
    obtain ⟨hs, ht⟩ := Span.read?_eq_some_iff.1 hr
    exact h s hs ⟨rest, ht.symm⟩

theorem spanned_iff_scanned {t : Text} {ps : List (Piece Span)} :
    Spanned t ps ↔ Scanned Span.read? t ps := by
  constructor
  · intro h
    induction h with
    | nil => exact .nil
    | @span s rest ps hs _ ih =>
      have hread : Span.read? (s.source ++ rest) = some (s, rest) :=
        Span.read?_eq_some_iff.2 ⟨hs, rfl⟩
      cases s <;> exact .span hread ih
    | plain hc _ ih => exact .plain (read?_eq_none_iff.2 hc) ih
  · intro h
    induction h with
    | nil => exact .nil
    | span hf _ ih =>
      obtain ⟨hs, ht⟩ := Span.read?_eq_some_iff.1 hf
      rw [ht]
      exact .span hs ih
    | plain hf _ ih => exact .plain (read?_eq_none_iff.1 hf) ih

/-- The spans of an inline text are those of its trimmed form and no others. -/
theorem spanned_iff {t : Text} {ps : List (Piece Span)} : Spanned t.trim ps ↔ ps = spans t := by
  rw [spanned_iff_scanned, scanned_iff Span.advances, spans]

/-- A text in which no span is written has characters alone. -/
theorem spans_of_forall {t : Text} (h : ∀ s : Span, s.Proper → ¬ s.source <:+: t.trim) :
    spans t = t.trim.map .plain := by
  refine scan_eq_map_plain fun n => read?_eq_none_iff.2 fun s hs hp => h s hs ?_
  exact hp.isInfix.trans (List.drop_suffix n t.trim).isInfix

end Wireframe.Row
