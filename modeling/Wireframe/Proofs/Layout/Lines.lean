import Wireframe.Proofs.Layout.Room

/-! Properties that all lines of a layout have. The layout breaks rows into lines, puts in an empty
line here and there and a line for an empty section, and draws frames and joins columns from lines
it has laid out before. A property that holds of the first and is kept by the last (`Kept`,
`KeptBeside`) holds of every line of every tree whose rows it holds of (`Kept.lines`); columns
matter only to trees that have some (`Node.hasColumns`). -/

namespace Wireframe

namespace Node

mutual

/-- Whether the tree has a group with two or more children. -/
def hasColumns : Node → Bool
  | .root children => anyHasColumns children
  | .sect _ _ children => anyHasColumns children
  | .group [] => false
  | .group [child] => child.hasColumns
  | .group (_ :: _ :: _) => true
  | .row _ => false

def anyHasColumns : List Node → Bool
  | [] => false
  | t :: ts => t.hasColumns || anyHasColumns ts

end

theorem anyHasColumns_cons {t : Node} {ts : List Node} :
    anyHasColumns (t :: ts) = true ↔ t.hasColumns = true ∨ anyHasColumns ts = true := by
  rw [anyHasColumns, Bool.or_eq_true]

end Node

namespace Layout

open Text

/-- A property of lines that is kept in sections: the lines that are put in have it, and a frame has
it if the lines in it do. -/
structure Kept (P : Text → Prop) : Prop where
  nil : P []
  emptyLine : P emptyLine
  frame : ∀ (width : Nat) (ls : List Text), (∀ line ∈ ls, P line) → ∀ line ∈ frame width ls, P line

/-- Lines that are set side by side keep a property. -/
def KeptBeside (P : Text → Prop) : Prop :=
  ∀ (blocks : List (List Text)) (widths : List Nat),
    (∀ block ∈ blocks, ∀ line ∈ block, P line) → ∀ line ∈ joinColumns blocks widths, P line

/-- The lines that texts take in a column or more have a property. -/
def RowsHave (P : Text → Prop) (texts : List Text) : Prop :=
  ∀ text ∈ texts, ∀ width, columnFloor ≤ width → ∀ line ∈ wrap width (Row.plain text), P line

variable {P : Text → Prop}

theorem rowsHave_rowsAll_cons {t : Node} {ts : List Node} :
    RowsHave P (Node.rowsAll (t :: ts)) ↔ RowsHave P t.rows ∧ RowsHave P (Node.rowsAll ts) := by
  rw [RowsHave, Node.rowsAll_cons, List.forall_mem_append, RowsHave, RowsHave]

namespace Kept

theorem stackLines (hk : Kept P) {blocks : List (List Text)}
    (h : ∀ block ∈ blocks, ∀ line ∈ block, P line) : ∀ line ∈ stackLines blocks, P line := by
  intro line hl
  rcases mem_of_mem_stackLines hl with rfl | rfl | hl
  · exact hk.emptyLine
  · exact hk.nil
  · obtain ⟨block, hb, hl⟩ := List.mem_flatten.1 hl
    exact h block hb line hl

theorem columnLines (hk : Kept P) {block : List Text} (h : ∀ line ∈ block, P line) :
    ∀ line ∈ columnLines block, P line := by
  intro line hl
  rcases mem_of_mem_columnLines hl with rfl | hl
  · exact hk.nil
  · exact h line hl

mutual

theorem lines (hk : Kept P) (width : Nat) :
    ∀ t : Node, (t.hasColumns = true → KeptBeside P) → RowsHave P t.rows →
      ∀ line ∈ lines width t, P line
  | .root children, hb, hr => by
    intro line hl
    rw [Layout.lines] at hl
    obtain ⟨block, hblock, hl⟩ := List.mem_flatten.1 ((dropBlankEnds_sublist _).mem hl)
    exact hk.blocks width children hb hr block hblock line hl
  | .sect name ratio children, hb, hr => by
    have hstack := hk.stackLines
      (hk.blocks (innerWidth (isFramed ratio children) width) children hb hr)
    rw [Layout.lines]
    split
    · exact hk.frame width _ hstack
    · exact hstack
  | .group [], _, _ => List.forall_mem_singleton.2 hk.nil
  | .group [child], hb, hr => by
    intro line hl
    rw [Layout.lines] at hl
    exact hk.lines width child hb (by simpa using hr) line ((dropBlankEnds_sublist _).mem hl)
  | .group (first :: second :: more), hb, hr => by
    rw [lines_group]
    exact hb rfl _ _ (hk.columns (hb rfl) _ (first :: second :: more) hr)
  | .row text, _, hr => by
    rw [Layout.lines]
    exact hr text (by simp) _ (Nat.le_max_right ..)

theorem blocks (hk : Kept P) (width : Nat) :
    ∀ ts : List Node, (Node.anyHasColumns ts = true → KeptBeside P) →
      RowsHave P (Node.rowsAll ts) → ∀ block ∈ blocks width ts, ∀ line ∈ block, P line
  | [], _, _ => by simp [Layout.blocks]
  | t :: ts, hb, hr => by
    obtain ⟨ht, hts⟩ := rowsHave_rowsAll_cons.1 hr
    rw [Node.anyHasColumns_cons, or_imp] at hb
    rw [Layout.blocks]
    exact List.forall_mem_cons.2 ⟨hk.lines width t hb.1 ht, hk.blocks width ts hb.2 hts⟩

theorem columns (hk : Kept P) (hb : KeptBeside P) :
    ∀ (widths : List Nat) (ts : List Node), RowsHave P (Node.rowsAll ts) →
      ∀ block ∈ columns widths ts, ∀ line ∈ block, P line
  | [], _, _ => by simp [Layout.columns]
  | _ :: _, [], _ => by simp [Layout.columns]
  | w :: ws, t :: ts, hr => by
    obtain ⟨ht, hts⟩ := rowsHave_rowsAll_cons.1 hr
    rw [Layout.columns]
    exact List.forall_mem_cons.2
      ⟨hk.columnLines (hk.lines w t (fun _ => hb) ht), hk.columns hb ws ts hts⟩

end

end Kept

/-! ### Simple lines -/

theorem kept_simple : Kept Simple where
  nil := simple_nil
  emptyLine := simple_emptyLine
  frame width _ h line hl := (tight_frame width h line hl).1

theorem keptBeside_simple : KeptBeside Simple := fun _ _ h => simple_joinColumns h

theorem rowsHave_simple {texts : List Text} (hs : ∀ text ∈ texts, text.Simple) :
    RowsHave Simple texts :=
  fun text ht _ _ _ hl => simple_of_mem_wrap (Row.simple_plain (hs text ht)) hl

/-- Simple rows are laid out in simple lines, whether or not there is room. -/
theorem simple_lines (width : Nat) (t : Node) (hs : ∀ text ∈ t.rows, text.Simple) :
    ∀ line ∈ lines width t, line.Simple :=
  kept_simple.lines width t (fun _ => keptBeside_simple) (rowsHave_simple hs)

theorem simple_blocks (width : Nat) (ts : List Node) (hs : ∀ text ∈ Node.rowsAll ts, text.Simple) :
    ∀ block ∈ blocks width ts, ∀ line ∈ block, line.Simple :=
  kept_simple.blocks width ts (fun _ => keptBeside_simple) (rowsHave_simple hs)

end Layout

end Wireframe
