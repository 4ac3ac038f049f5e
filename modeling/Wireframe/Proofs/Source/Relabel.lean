import Mathlib.Data.List.Forall2
import Mathlib.Order.Monotone.Basic
import Wireframe.Proofs.Source.Reading
import Wireframe.Proofs.Text.LineEnd

/-! Only the order of the indents matters. Where the lines of one source are those of
another with their indents renamed by a strictly increasing function, the scopes of
one run are those of the other, renamed (`Reads.relabel`), and so the trees are equal
and the errors are of one kind (`sameOutcome_of_relabelled`). Blank lines, white space
after a line, an odd space in front, the line ends and a shift of the whole source
leave the indents in their order (`settledByOrder`). -/

namespace Wireframe.Source

open Outline

/-! ### Scopes -/

/-- The scope with another indent in place of its own. -/
def Scope.relabel (f : Nat → Nat) : Scope → Scope
  | group => group
  | sect own => sect (f own)

/-- The same error at another line. -/
def ParseError.moveTo (line : Nat) : ParseError → ParseError
  | unmatchedClose _ => unmatchedClose line
  | invalidNesting _ => invalidNesting line
  | tooDeep _ limit => tooDeep line limit

section
variable {f : Nat → Nat}

theorem endsAt_relabel (hf : StrictMono f) (indent : Nat) (scope : Scope) :
    (scope.relabel f).endsAt (f indent) = scope.endsAt indent := by
  cases scope with
  | group => rfl
  | sect own => exact decide_eq_decide.2 hf.le_iff_le

theorem dropWhile_endsAt_relabel (hf : StrictMono f) (indent : Nat) (scopes : List Scope) :
    (scopes.map (Scope.relabel f)).dropWhile (Scope.endsAt (f indent)) =
      (scopes.dropWhile (Scope.endsAt indent)).map (Scope.relabel f) := by
  have hends : Scope.endsAt (f indent) ∘ Scope.relabel f = Scope.endsAt indent := by
    funext scope
    exact endsAt_relabel hf indent scope
  rw [List.dropWhile_map, hends]

theorem closeGroup?_relabel (scopes : List Scope) :
    closeGroup? (scopes.map (Scope.relabel f)) =
      (closeGroup? scopes).map (List.map (Scope.relabel f)) := by
  induction scopes with
  | nil => rfl
  | cons scope scopes ih =>
    cases scope with
    | group => rfl
    | sect own => exact ih

theorem scopeOf?_relabel (indent : Nat) (item : Item) :
    scopeOf? (f indent) item = (scopeOf? indent item).map (Scope.relabel f) := by
  cases item <;> rfl

/-! ### Lines -/

/-- A line with the same text and, unless it is a closing bracket, with its indent renamed. -/
structure Relabelled (f : Nat → Nat) (line line' : Line) : Prop where
  text_eq : line'.text = line.text
  indent_eq : line.text ≠ [']'] → line'.indent = f line.indent

theorem relabelled_iff {line line' : Line} :
    Relabelled f line line' ↔
      line'.text = line.text ∧ (line.text ≠ [']'] → line'.indent = f line.indent) :=
  ⟨fun h => ⟨h.text_eq, h.indent_eq⟩, fun h => ⟨h.1, h.2⟩⟩

instance (line line' : Line) : Decidable (Relabelled f line line') :=
  decidable_of_iff _ relabelled_iff.symm

/-- A renamed line is placed as the line is, or fails as it does. -/
theorem place_relabel (hf : StrictMono f) {line line' : Line} (h : Relabelled f line line')
    (scopes : List Scope) :
    place (scopes.map (Scope.relabel f)) line' =
      match place scopes line with
      | .ok (mid, entry) => .ok (mid.map (Scope.relabel f), entry)
      | .error e => .error (e.moveTo line'.number) := by
  have hform : line'.form = line.form := congrArg Form.read h.text_eq
  unfold place
  rw [hform]
  cases hl : line.form with
  | close =>
    dsimp only
    rw [closeGroup?_relabel]
    cases closeGroup? scopes <;> rfl
  | item item =>
    have hindent : line'.indent = f line.indent := by
      apply h.indent_eq
      intro ht
      rw [Line.form, read_eq_close_iff.2 ht] at hl
      contradiction
    dsimp only
    rw [hindent, dropWhile_endsAt_relabel hf, scopeOf?_relabel, List.length_map]
    cases scopeOf? line.indent item with
    | none => rfl
    | some scope =>
      dsimp only [Option.map_some]
      split <;> rfl

theorem line_eq_of_place_eq_error {scopes : List Scope} {line : Line} {e : ParseError}
    (h : place scopes line = .error e) : e.line = line.number := by
  rcases place_eq_error_iff.1 h with ⟨-, -, rfl⟩ | ⟨-, -, -, -, rfl⟩ <;> rfl

/-- Renamed lines are read as the lines are. -/
theorem Reads.relabel (hf : StrictMono f) {scopes left : List Scope} {lines lines' : List Line}
    {o : Outline} (hr : Reads scopes lines o left) (h : List.Forall₂ (Relabelled f) lines lines') :
    Reads (scopes.map (Scope.relabel f)) lines' o (left.map (Scope.relabel f)) := by
  induction hr generalizing lines' with
  | nil scopes =>
    cases h
    exact .nil _
  | cons first rest ih =>
    cases h with
    | cons hline hlines =>
      refine .cons ?_ (ih hlines)
      rw [place_relabel hf hline, first]

end

/-! ### Sources -/

theorem exists_split_of_forall₂ {α β : Type} {R : α → β → Prop} {before after : List α} {a : α}
    {bs : List β} (h : List.Forall₂ R (before ++ a :: after) bs) :
    ∃ before' b after', bs = before' ++ b :: after' ∧ List.Forall₂ R before before' ∧ R a b := by
  induction before generalizing bs with
  | nil =>
    obtain ⟨b, after', hb, -, rfl⟩ := List.forall₂_cons_left_iff.1 h
    exact ⟨[], b, after', rfl, .nil, hb⟩
  | cons first before ih =>
    obtain ⟨first', rest, hfirst, hrest, rfl⟩ := List.forall₂_cons_left_iff.1 h
    obtain ⟨before', b, after', rfl, hbefore, hb⟩ := ih hrest
    exact ⟨first' :: before', b, after', rfl, .cons hfirst hbefore, hb⟩

/-- Two sources have one tree, or the same error at lines that correspond, each with the number that
the line has in its own source. -/
def SameOutcome (source source' : Text) : Prop :=
  (∃ t, parse source = .ok t ∧ parse source' = .ok t) ∨
    ∃ (i : Nat) (line line' : Line) (e : ParseError),
      (linesOf source)[i]? = some line ∧ (linesOf source')[i]? = some line' ∧
        parse source = .error e ∧ e.line = line.number ∧
          parse source' = .error (e.moveTo line'.number)

theorem sameOutcome_of_relabelled {f : Nat → Nat} (hf : StrictMono f) {source source' : Text}
    (h : List.Forall₂ (Relabelled f) (linesOf source) (linesOf source')) :
    SameOutcome source source' := by
  cases hp : parse source with
  | ok t =>
    obtain ⟨ts, left, rfl, hread⟩ := parse_eq_ok_iff_reads.1 hp
    exact .inl ⟨_, hp, parse_eq_ok_iff_reads.2 ⟨ts, _, rfl, hread.relabel hf h⟩⟩
  | error e =>
    obtain ⟨before, line, after, o, mid, hl, hread, hfail⟩ :=
      outline_eq_error_iff_reads.1 (parse_eq_error_iff.1 hp)
    -- the other source has a line that corresponds, and what stands before it is read
    obtain ⟨before', line', after', hl', hbefore, hline⟩ := exists_split_of_forall₂ (hl ▸ h)
    have hfail' : parse source' = .error (e.moveTo line'.number) := by
      rw [parse_eq_error_iff, outline_eq_error_iff_reads]
      refine ⟨before', line', after', o, _, hl', hread.relabel hf hbefore, ?_⟩
      rw [place_relabel hf hline, hfail]
    refine .inr ⟨before.length, line, line', e, ?_, ?_, hp, line_eq_of_place_eq_error hfail, hfail'⟩
    · simp [hl]
    · simp [hl', hbefore.length_eq]

/-! ### Raw lines -/

/-- The lines of a source are what its raw lines that are not blank say, apart from the numbers. -/
theorem map_linesOf (source : Text) :
    (linesOf source).map (fun line => (line.indent, line.text)) =
      (Text.inkedLines source).map fun raw => (indentOf raw, raw.trim) := by
  rw [linesOf_eq_numbered, Text.inkedLines]
  generalize 1 = k
  induction Text.lines source generalizing k with
  | nil => rfl
  | cons raw raws ih =>
    rw [numbered_cons, List.map_append, ih, List.filter_cons, Line.read?]
    cases raw.isBlank <;> rfl

/-- Sources correspond when their raw lines do, the blank ones aside. -/
theorem relabelled_of_inkedLines {f : Nat → Nat} {source source' : Text}
    (h : List.Forall₂ (fun raw raw' => raw'.trim = raw.trim ∧ indentOf raw' = f (indentOf raw))
      (Text.inkedLines source) (Text.inkedLines source')) :
    List.Forall₂ (Relabelled f) (linesOf source) (linesOf source') := by
  have hkeys : List.Forall₂ (fun key key' : Nat × Text => key'.2 = key.2 ∧ key'.1 = f key.1)
      ((linesOf source).map fun line => (line.indent, line.text))
      ((linesOf source').map fun line => (line.indent, line.text)) := by
    rw [map_linesOf, map_linesOf, List.forall₂_map_left_iff, List.forall₂_map_right_iff]
    exact h
  rw [List.forall₂_map_left_iff, List.forall₂_map_right_iff] at hkeys
  exact hkeys.imp fun line line' hk => ⟨hk.1, fun _ => hk.2⟩

/-- The same line with other spaces: `n` pairs more in front of it, where an odd one does not count,
and any white space after it. -/
inductive Respaced (n : Nat) : Text → Text → Prop
  | intro {k k' : Nat} {body after after' : Text} (pairs : k' / 2 = k / 2 + n)
      (start : ∀ c ∈ body.head?, c ≠ ' ') (inked : body.isBlank = false)
      (blank_after : after.isBlank = true) (blank_after' : after'.isBlank = true) :
      Respaced n (List.replicate k ' ' ++ (body ++ after))
        (List.replicate k' ' ' ++ (body ++ after'))

theorem indentOf_spaces_append {body after : Text} (hs : ∀ c ∈ body.head?, c ≠ ' ')
    (hb : body.isBlank = false) (k : Nat) :
    indentOf (List.replicate k ' ' ++ (body ++ after)) = k / 2 := by
  refine indentOf_spaces ?_ k
  cases body with
  | nil => exact absurd hb (by decide)
  | cons c body => exact fun hc => hs ' ' hc rfl

theorem trim_spaces_append {body after : Text} (hb : body.isBlank = false)
    (ha : after.isBlank = true) (k : Nat) :
    Text.trim (List.replicate k ' ' ++ (body ++ after)) = body.trim := by
  have hspace : ∀ c ∈ List.replicate k ' ', blank c = true := by
    intro c hc
    rw [List.eq_of_mem_replicate hc]
    decide
  rw [Text.trim_blanks_append hspace, Text.trim_append_blanks (List.all_eq_true.1 ha) hb]

theorem Respaced.indentOf_eq {n : Nat} {raw raw' : Text} (h : Respaced n raw raw') :
    indentOf raw' = indentOf raw + n := by
  obtain ⟨pairs, start, inked, -, -⟩ := h
  rw [indentOf_spaces_append start inked, indentOf_spaces_append start inked, pairs]

theorem Respaced.trim_eq {n : Nat} {raw raw' : Text} (h : Respaced n raw raw') :
    raw'.trim = raw.trim := by
  obtain ⟨-, -, inked, blank_after, blank_after'⟩ := h
  rw [trim_spaces_append inked blank_after, trim_spaces_append inked blank_after']

/-- What a source is read as depends on its indents only through their order, and on no other white
space. -/
structure SettledByOrder (source : Text) : Prop where
  /-- A source with the same texts and with the indents renamed in their order has the same outcome;
  closing brackets may be indented in any way. -/
  of_relabelled : ∀ source' f, StrictMono f →
    List.Forall₂ (Relabelled f) (linesOf source) (linesOf source') → SameOutcome source source'
  /-- Blank lines, white space after a line, an odd space before it and a shift of all lines change
  nothing. -/
  of_respaced : ∀ source' n,
    List.Forall₂ (Respaced n) (Text.inkedLines source) (Text.inkedLines source') →
      SameOutcome source source'
  /-- The line ends may be any others. -/
  of_ended : ∀ pieces pieces' last, (∀ piece ∈ pieces, Text.OneLine piece.1) → last.OneLine →
    source = Text.ended pieces last → pieces'.map Prod.fst = pieces.map Prod.fst →
      SameOutcome source (Text.ended pieces' last)

theorem settledByOrder (source : Text) : SettledByOrder source where
  of_relabelled _ _ hf h := sameOutcome_of_relabelled hf h
  of_respaced source' n h := by
    have hf : StrictMono (· + n) := fun i j hij => Nat.add_lt_add_right hij n
    apply sameOutcome_of_relabelled hf
    exact relabelled_of_inkedLines (h.imp fun raw raw' hr => ⟨hr.trim_eq, hr.indentOf_eq⟩)
  of_ended pieces pieces' last hpieces hlast hs hsame := by
    have hpieces' : ∀ piece ∈ pieces', Text.OneLine piece.1 := by
      intro piece hp
      obtain ⟨piece', hp', he⟩ : ∃ piece' ∈ pieces, piece'.1 = piece.1 := by
        rw [← List.mem_map, ← hsame]
        exact List.mem_map_of_mem hp
      exact he ▸ hpieces piece' hp'
    apply sameOutcome_of_relabelled strictMono_id
    apply relabelled_of_inkedLines
    rw [hs, Text.inkedLines_ended hpieces hlast, Text.inkedLines_ended hpieces' hlast, hsame]
    exact List.forall₂_same.2 fun raw _ => ⟨rfl, rfl⟩

/-- Indents of 0, 1 and 2 become 3, 5 and 7, the closing bracket moves to the margin, and with the
blank lines gone the bracket too many stands in another line. -/
theorem settledByOrder_sample :
    List.Forall₂ (Relabelled fun n => 2 * n + 3)
        (linesOf "=a\n\n  [\n    =b\n    x\n   ]\n\n]".toList)
        (linesOf "      =a\r          [ \r\n              =b\n               x\r]\r ]".toList) ∧
      SameOutcome "=a\n\n  [\n    =b\n    x\n   ]\n\n]".toList
        "      =a\r          [ \r\n              =b\n               x\r]\r ]".toList ∧
      parse "=a\n\n  [\n    =b\n    x\n   ]\n\n]".toList = .error (.unmatchedClose 8) ∧
      parse "      =a\r          [ \r\n              =b\n               x\r]\r ]".toList =
        .error (.unmatchedClose 6) := by
  have h : List.Forall₂ (Relabelled fun n => 2 * n + 3)
      (linesOf "=a\n\n  [\n    =b\n    x\n   ]\n\n]".toList)
      (linesOf "      =a\r          [ \r\n              =b\n               x\r]\r ]".toList) := by
    decide
  have hf : StrictMono fun n => 2 * n + 3 := fun i j hij => by dsimp only; omega
  exact ⟨h, (settledByOrder _).of_relabelled _ _ hf h, by rfl, by rfl⟩

end Wireframe.Source
