import Wireframe.Proofs.Layout.Lines

/-! Layouts that overflow. A group whose columns do not fit is wider than the width it is laid
out for. A frame cuts or wraps its lines to its inside and a column cuts the lines in it,
so what overflows there is not seen outside (`tight_frame`, `tight_joinColumns`): the
page keeps to its width as soon as the groups outside of frames and of other columns do
(`width_le_of_mem_lines`). -/

namespace Wireframe.Layout

open Text Width

/-! ### Simple columns -/

theorem simple_columns :
    ∀ {widths : List Nat} {ts : List Node}, widths.length = ts.length →
      (∀ text ∈ Node.rowsAll ts, text.Simple) →
        List.Forall₂ (fun _ block => ∀ line ∈ block, Simple line) widths (columns widths ts)
  | [], [], _, _ => .nil
  | w :: ws, t :: ts, hlen, hs => by
    rw [Node.rowsAll_cons, List.forall_mem_append] at hs
    rw [columns]
    exact .cons (kept_simple.columnLines (simple_lines w t hs.1))
      (simple_columns (Nat.succ.inj hlen) hs.2)

/-! ### Groups outside of frames -/

mutual

/-- The groups with two or more children that stand neither in a frame nor in a column are no wider
than the bound when the tree is laid out for a width. -/
def OuterWithin (bound width : Nat) : Node → Prop
  | .root children => OuterAllWithin bound width children
  | .sect _ ratio children =>
    isFramed ratio children = true ∨ OuterAllWithin bound (innerWidth false width) children
  | .group [] => True
  | .group [child] => OuterWithin bound width child
  | .group children => spread (columnWidths (children.map Node.ratio) width) ≤ bound
  | .row _ => True

def OuterAllWithin (bound width : Nat) : List Node → Prop
  | [] => True
  | t :: ts => OuterWithin bound width t ∧ OuterAllWithin bound width ts

end

mutual

def decidableOuterWithin (bound width : Nat) : (t : Node) → Decidable (OuterWithin bound width t)
  | .root children => decidableOuterAllWithin bound width children
  | .sect _ ratio children =>
    haveI := decidableOuterAllWithin bound (innerWidth false width) children
    inferInstanceAs (Decidable (isFramed ratio children = true ∨ _))
  | .group [] => .isTrue trivial
  | .group [child] => decidableOuterWithin bound width child
  | .group (_ :: _ :: _) => Nat.decLe _ _
  | .row _ => .isTrue trivial

def decidableOuterAllWithin (bound width : Nat) :
    (ts : List Node) → Decidable (OuterAllWithin bound width ts)
  | [] => .isTrue trivial
  | t :: ts =>
    haveI := decidableOuterWithin bound width t
    haveI := decidableOuterAllWithin bound width ts
    inferInstanceAs (Decidable (OuterWithin bound width t ∧ OuterAllWithin bound width ts))

end

instance (bound width : Nat) (t : Node) : Decidable (OuterWithin bound width t) :=
  decidableOuterWithin bound width t

/-! ### The page -/

mutual

/-- The lines of a node keep to a bound that its outer groups keep to, if the bound is no less than
the width and than a column. -/
theorem tight_lines_of_outerWithin {bound width : Nat} (hw : max width columnFloor ≤ bound) :
    ∀ t : Node, OuterWithin bound width t → (∀ text ∈ t.rows, text.Simple) →
      Tight bound (lines width t)
  | .root children, ho, hs => by
    rw [lines]
    refine Tight.dropBlankEnds fun line hl => ?_
    obtain ⟨block, hb, hl⟩ := List.mem_flatten.1 hl
    exact tight_blocks_of_outerAllWithin hw children ho hs block hb line hl
  | .sect name ratio children, ho, hs => by
    rw [lines]
    cases hf : isFramed ratio children with
    | true =>
      -- the frame keeps to its width, whatever the groups in it do
      exact (tight_frame width (kept_simple.stackLines (simple_blocks _ children hs))).widen hw
    | false =>
      have ho := ho.resolve_left (by simp [hf])
      have hinner : max (innerWidth false width) columnFloor ≤ bound :=
        (Nat.max_eq_left (columnFloor_le_innerWidth false width)).trans_le hw
      exact tight_stackLines (Nat.le_trans (Nat.le_max_right ..) hw)
        (tight_blocks_of_outerAllWithin hinner children ho hs)
  | .group [], _, _ => tight_empty bound
  | .group [child], ho, hs => by
    rw [lines]
    exact (tight_lines_of_outerWithin hw child ho (by simpa using hs)).dropBlankEnds
  | .group (first :: second :: more), ho, hs => by
    have hlen := length_columnWidths_map (first :: second :: more) width
    rw [lines_group]
    exact (tight_joinColumns (simple_columns hlen hs)).widen ho
  | .row text, _, hs => by
    have hfloor : 2 ≤ max width columnFloor := Nat.le_trans (by decide) (Nat.le_max_right ..)
    rw [lines]
    exact (tight_wrap hfloor (Row.simple_plain (hs text (by simp)))).widen hw

theorem tight_blocks_of_outerAllWithin {bound width : Nat} (hw : max width columnFloor ≤ bound) :
    ∀ ts : List Node, OuterAllWithin bound width ts → (∀ text ∈ Node.rowsAll ts, text.Simple) →
      ∀ block ∈ blocks width ts, Tight bound block
  | [], _, _ => by simp [blocks]
  | t :: ts, ho, hs => by
    rw [Node.rowsAll_cons, List.forall_mem_append] at hs
    rw [blocks]
    exact List.forall_mem_cons.2 ⟨tight_lines_of_outerWithin hw t ho.1 hs.1,
      tight_blocks_of_outerAllWithin hw ts ho.2 hs.2⟩

end

/-- Where the rows are simple and the groups outside of frames and columns keep to the width, so
does every line of the page, though never to less than a column. -/
theorem width_le_of_outerWithin {width : Nat} {t : Node}
    (ho : OuterWithin (max width columnFloor) width t) (hs : ∀ text ∈ t.rows, text.Simple) :
    ∀ line ∈ lines width t, line.width ≤ max width columnFloor := by
  intro line hl
  obtain ⟨hsimple, hsum⟩ := tight_lines_of_outerWithin (Nat.le_refl _) t ho hs line hl
  rw [width_of_simple hsimple]
  exact hsum

/-- Two columns that fit, with a group too wide for its frame in the first, and a frame around two
columns that are too wide for it. -/
def sampleOverflow : Node :=
  .root [
    .group [
      .sect "left".toList none [
        .sect "box".toList (some ⟨1, 2⟩) [
          .group [.row "一二三".toList, .row "四五六".toList, .row "[x] seven".toList]]],
      .row "# right".toList],
    .sect "below".toList (some ⟨1, 3⟩) [
      .group [.row "a".toList, .row "b".toList, .row "c".toList, .row "d".toList]]]

theorem width_le_of_outerWithin_sampleOverflow :
    OuterWithin 60 60 sampleOverflow ∧ (∀ text ∈ sampleOverflow.rows, text.Simple) ∧
      ¬ Fits 60 sampleOverflow ∧ ∀ line ∈ lines 60 sampleOverflow, line.width ≤ 60 := by
  have houter : OuterWithin 60 60 sampleOverflow := by decide
  have hsimple : ∀ text ∈ sampleOverflow.rows, text.Simple := by decide
  exact ⟨houter, hsimple, by decide, width_le_of_outerWithin houter hsimple⟩

end Wireframe.Layout
