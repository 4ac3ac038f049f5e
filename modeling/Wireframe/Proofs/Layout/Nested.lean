import Wireframe.Proofs.Layout.Overflow

/-! Frames in frames. In a tree without columns, a line that is laid out in a section either belongs
to a frame or holds words with single spaces between them (`Settled`), so that a frame around the
section draws it as it is if there is room (`fitLine_of_settled`). A frame of twenty columns or more
has room for all of them. A narrower one still has its section laid out for a column and cuts the
frames in it to its inside (`lines_sect_of_isFramed`). -/

namespace Wireframe

namespace Layout

open Text Width

/-! ### Settled lines -/

/-- A line of a frame, or words with single spaces between them. -/
def Settled (line : Text) : Prop :=
  line.head? = some '+' ∨ line.head? = some '|' ∨ squeeze line = line

theorem settled_of_mem_frame {width : Nat} {ls : List Text} {line : Text}
    (h : line ∈ frame width ls) : Settled line := by
  rcases exists_of_mem_frame h with rfl | ⟨inner, -, part, -, rfl⟩
  · exact .inl rfl
  · exact .inr (.inl rfl)

theorem kept_settled : Kept Settled where
  nil := .inr (.inr rfl)
  emptyLine := .inr (.inr (by decide))
  frame _ _ _ _ hl := settled_of_mem_frame hl

theorem rowsHave_settled (texts : List Text) : RowsHave Settled texts :=
  fun _ _ _ hw _ hl => .inr (.inr (squeeze_of_mem_wrap (Nat.le_trans (by decide) hw) hl))

/-- Every line of a section without columns is settled, whatever the rows hold. -/
theorem settled_stackLines (width : Nat) {ts : List Node} (hc : Node.anyHasColumns ts = false) :
    ∀ line ∈ stackLines (blocks width ts), Settled line :=
  kept_settled.stackLines <| kept_settled.blocks width ts
    (fun h => absurd (hc ▸ h) Bool.false_ne_true) (rowsHave_settled _)

/-! ### Room in a frame -/

/-- A line as it is between the sides of a frame, filled up with spaces. -/
def barred (room : Nat) (line : Text) : Text :=
  '|' :: line ++ List.replicate (room - line.width) ' ' ++ ['|']

/-- The lines of a frame for a line in it. What has no room is cut or wrapped. -/
def inFrame (room : Nat) (line : Text) : List Text :=
  if line.width ≤ room then [barred room line] else (fitLine room line).map (side room)

theorem side_of_charSum_le {room : Nat} {line : Text} (h : charSum line ≤ room) :
    side room line = barred room line := by
  rw [side, pad, cut_of_charSum_le h]
  rfl

section

variable {room : Nat} (hr : 2 ≤ room) {line : Text} (hs : line.Simple) (hq : Settled line)
include hr hs hq

/-- What has room is neither cut nor wrapped. -/
theorem fitLine_of_settled (h : charSum line ≤ room) : fitLine room line = [line] := by
  rw [fitLine]
  split
  · rw [cut_of_charSum_le h]
  · next hborder =>
    rw [not_or] at hborder
    exact wrap_of_charSum_le hr hs ((hq.resolve_left hborder.1).resolve_left hborder.2) h

theorem map_side_fitLine : (fitLine room line).map (side room) = inFrame room line := by
  rw [inFrame, width_of_simple hs]
  split
  · next h => rw [fitLine_of_settled hr hs hq h, List.map_singleton, side_of_charSum_le h]
  · rfl

end

/-- A frame draws the settled lines that it has room for as they are. -/
theorem frame_of_settled {width : Nat} {ls : List Text} (hs : ∀ line ∈ ls, line.Simple)
    (hq : ∀ line ∈ ls, Settled line) :
    frame width ls = border width :: ls.flatMap (inFrame (interior width)) ++ [border width] := by
  have hlines : ∀ line ∈ ls, (fitLine (interior width) line).map (side (interior width)) =
      inFrame (interior width) line :=
    fun line hl => map_side_fitLine (two_le_interior width) (hs line hl) (hq line hl)
  rw [frame, List.map_flatMap, List.flatMap_congr hlines]

theorem flatMap_inFrame {room : Nat} {ls : List Text} (h : ∀ line ∈ ls, line.width ≤ room) :
    ls.flatMap (inFrame room) = ls.map (barred room) := by
  have hlines : ∀ line ∈ ls, inFrame room line = [barred room line] :=
    fun line hl => if_pos (h line hl)
  rw [List.flatMap_congr hlines, List.map_eq_flatMap]

/-! ### Sections without columns -/

mutual

/-- Trees without columns have no group that could be too wide. -/
theorem outerWithin_of_not_hasColumns (bound width : Nat) :
    ∀ t : Node, t.hasColumns = false → OuterWithin bound width t
  | .root children, h => outerAllWithin_of_not_hasColumns bound width children h
  | .sect _ _ children, h => .inr (outerAllWithin_of_not_hasColumns bound _ children h)
  | .group [], _ => trivial
  | .group [child], h => outerWithin_of_not_hasColumns bound width child h
  | .row _, _ => trivial

theorem outerAllWithin_of_not_hasColumns (bound width : Nat) :
    ∀ ts : List Node, Node.anyHasColumns ts = false → OuterAllWithin bound width ts
  | [], _ => trivial
  | t :: ts, h => by
    obtain ⟨ht, hts⟩ := Bool.or_eq_false_iff.1 h
    exact ⟨outerWithin_of_not_hasColumns bound width t ht,
      outerAllWithin_of_not_hasColumns bound width ts hts⟩

end

/-- A section without columns keeps to the width it is laid out for, if that is no less than a
column. -/
theorem width_le_of_mem_stackLines {width : Nat} (hw : columnFloor ≤ width) {ts : List Node}
    (hc : Node.anyHasColumns ts = false) (hs : ∀ text ∈ Node.rowsAll ts, text.Simple) :
    ∀ line ∈ stackLines (blocks width ts), line.width ≤ width := by
  have htight := tight_stackLines hw <| tight_blocks_of_outerAllWithin (Nat.max_eq_left hw).le ts
    (outerAllWithin_of_not_hasColumns width width ts hc) hs
  intro line hl
  obtain ⟨hsimple, hsum⟩ := htight line hl
  rw [width_of_simple hsimple]
  exact hsum

/-- The lines of a framed section with simple rows and without columns. Its children are laid out
for the inside of the frame, or for a column where that is narrower. Each of their lines that has
room stands as it is between the sides, and from twenty columns on every line has. -/
theorem lines_sect_of_isFramed {width : Nat} (hw : 18 ≤ width) {name : Text}
    {ratio : Option Ratio} {children : List Node} (hf : isFramed ratio children = true)
    (hc : (Node.sect name ratio children).hasColumns = false)
    (hs : ∀ text ∈ (Node.sect name ratio children).rows, text.Simple) :
    let inner := stackLines (blocks (innerWidth true width) children)
    innerWidth true width = max (width - 2) 18 ∧
      lines width (.sect name ratio children) =
        border width :: inner.flatMap (inFrame (width - 2)) ++ [border width] ∧
      (20 ≤ width → (∀ line ∈ inner, line.width ≤ width - 2) ∧
        lines width (.sect name ratio children) =
          border width :: inner.map (barred (width - 2)) ++ [border width]) := by
  intro inner
  have hframe : lines width (.sect name ratio children) = frame width inner := by
    rw [lines, hf, if_pos rfl]
  have hsimple : ∀ line ∈ inner, line.Simple :=
    kept_simple.stackLines (simple_blocks _ children hs)
  have hdrawn : frame width inner =
      border width :: inner.flatMap (inFrame (width - 2)) ++ [border width] := by
    rw [frame_of_settled hsimple (settled_stackLines _ hc), interior_eq hw]
  refine ⟨rfl, hframe.trans hdrawn, fun hroom => ?_⟩
  have hinner : ∀ line ∈ inner, line.width ≤ width - 2 := by
    rw [← innerWidth_true hroom]
    exact width_le_of_mem_stackLines (columnFloor_le_innerWidth true width) hc hs
  refine ⟨hinner, ?_⟩
  rw [hframe, hdrawn, flatMap_inFrame hinner]

/-- Frames in frames with simple rows, one of them a row that begins with a border character. -/
def sampleNested : List Node :=
  [.sect "card".toList (some ⟨1, 2⟩) [
      .row "+1 or +2".toList,
      .sect "empty".toList (some ⟨1, 3⟩) []],
    .group [.row "二三四五六七八九十".toList]]

theorem lines_sect_of_isFramed_sampleNested :
    isFramed (some ⟨1, 1⟩) sampleNested = true ∧
      (∀ text ∈ Node.rowsAll sampleNested, text.Simple) ∧
      (∀ line ∈ stackLines (blocks 18 sampleNested), line.width ≤ 18) ∧
      lines 20 (.sect "box".toList (some ⟨1, 1⟩) sampleNested) = border 20 ::
        (stackLines (blocks 18 sampleNested)).map (barred 18) ++ [border 20] := by
  have hframed : isFramed (some ⟨1, 1⟩) sampleNested = true := rfl
  have hsimple : ∀ text ∈ Node.rowsAll sampleNested, text.Simple := by decide
  obtain ⟨-, -, hroom⟩ :=
    @lines_sect_of_isFramed 20 (by decide) "box".toList _ _ hframed rfl hsimple
  exact ⟨hframed, hsimple, hroom (by decide)⟩

/-- In a frame of eighteen columns the right border of a frame within is cut off. -/
theorem lines_sect_ne_map_barred :
    let inner := [Node.sect "inner".toList (some ⟨1, 2⟩) [.row "hi".toList]]
    let outer := Node.sect "outer".toList (some ⟨1, 2⟩) inner
    isFramed (some ⟨1, 2⟩) inner = true ∧ outer.hasColumns = false ∧
      (∀ text ∈ outer.rows, text.Simple) ∧
      "+----------------+".toList ∈ stackLines (blocks (innerWidth true 18) inner) ∧
      lines 18 outer = border 18 :: ["|+---------------|", "||hi             |",
        "|+---------------|"].map String.toList ++ [border 18] ∧
      lines 18 outer ≠ border 18 ::
        (stackLines (blocks (innerWidth true 18) inner)).map (barred 16) ++ [border 18] := by
  decide +kernel

end Layout

end Wireframe
