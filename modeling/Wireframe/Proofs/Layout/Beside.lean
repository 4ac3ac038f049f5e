import Mathlib.Data.List.GetD
import Wireframe.Proofs.Layout.Overflow

/-! Columns in their places. A line of a group, filled up with the spaces that were trimmed from it,
is as wide as the columns with their gaps. In it each child has the columns from its own offset on,
which show its line at this height, cut or padded to its width, or nothing but spaces below its
last line, and three spaces stand between neighbours (`InColumns`, `inColumns_lines_group`). -/

namespace Wireframe

namespace Text

open Width

/-- What is trimmed from the end of a simple text is spaces. -/
theorem trimEnd_append_spaces {t : Text} (hs : t.Simple) :
    trimEnd t ++ List.replicate (charSum t - width (trimEnd t)) ' ' = t := by
  obtain ⟨blanks, hb, he⟩ := trimEnd_append_blanks t
  have hspaces : blanks = List.replicate blanks.length ' ' := by
    refine List.eq_replicate_length.2 fun c hc => ?_
    by_contra hne
    have hsimple : isSimple c = true := hs c (he ▸ List.mem_append_right _ hc)
    exact Bool.false_ne_true ((not_blank_of_isSimple hsimple hne).symm.trans (hb c hc))
  have hsum : charSum t = width (trimEnd t) + blanks.length := by
    have htrim : (trimEnd t).Simple := hs.mono fun _ hc => (isPrefix_trimEnd t).mem hc
    conv_lhs => rw [he, hspaces]
    rw [charSum_append, charSum_spaces, width_of_simple htrim]
  rw [hsum, Nat.add_sub_cancel_left, ← hspaces, ← he]

end Text

namespace Layout

open Text Width

/-! ### Places in a line -/

/-- The columns of a line from `start` on, `count` of them, show a text. -/
def ShowsAt (start count : Nat) (part line : Text) : Prop :=
  ∃ before after, line = before ++ part ++ after ∧ before.width = start ∧ part.width = count

/-- The columns before the one at an index, each with the gap after it. -/
def offset (widths : List Nat) (i : Nat) : Nat :=
  (widths.take i).foldr (fun w before => w + columnGap + before) 0

/-- The gap between neighbours. -/
def gap : Text := List.replicate columnGap ' '

theorem simple_gap : gap.Simple := simple_replicate (by decide) _

theorem charSum_gap : charSum gap = columnGap := charSum_spaces _

theorem charSum_flatMap_gap (cells : List Text) (i : Nat) :
    charSum ((cells.take i).flatMap (· ++ gap)) = offset (cells.map charSum) i := by
  induction cells generalizing i with
  | nil => simp [offset, charSum]
  | cons cell cells ih =>
    cases i with
    | zero => rfl
    | succ i =>
      rw [List.take_succ_cons, List.flatMap_cons, charSum_append, charSum_append, charSum_gap, ih]
      rfl

section

variable {cells : List Text} (hs : ∀ cell ∈ cells, cell.Simple) {i : Nat}
include hs

/-- In joined cells each has those before it, with a gap after each, in front of it. -/
theorem exists_join_eq (hi : i < cells.length) : ∃ before : Text, before.Simple ∧
    charSum before = offset (cells.map charSum) i ∧
    join gap cells = before ++ cells.getD i [] ++ (cells.drop (i + 1)).flatMap (gap ++ ·) := by
  have hcell : cells.getD i [] = cells[i] := (List.getElem_eq_getD []).symm
  refine ⟨(cells.take i).flatMap (· ++ gap), fun c hc => ?_, charSum_flatMap_gap cells i, ?_⟩
  · obtain ⟨cell, hcell, hc⟩ := List.mem_flatMap.1 hc
    exact (hs cell (List.mem_of_mem_take hcell)).append simple_gap c hc
  · rw [hcell, ← join_append_cons, ← List.drop_eq_getElem_cons hi, List.take_append_drop]

theorem showsAt_join (hi : i < cells.length) :
    ShowsAt (offset (cells.map charSum) i) (charSum (cells.getD i [])) (cells.getD i [])
      (join gap cells) := by
  obtain ⟨before, hbefore, hsum, he⟩ := exists_join_eq hs hi
  exact ⟨before, _, he, (width_of_simple hbefore).trans hsum, width_of_simple (simple_getD hs i)⟩

theorem showsAt_gap_join (hi : i + 1 < cells.length) :
    ShowsAt (offset (cells.map charSum) i + charSum (cells.getD i [])) columnGap gap
      (join gap cells) := by
  obtain ⟨before, hbefore, hsum, he⟩ := exists_join_eq hs (Nat.lt_of_succ_lt hi)
  rw [List.drop_eq_getElem_cons hi, List.flatMap_cons, List.append_assoc gap,
    ← List.append_assoc _ gap] at he
  refine ⟨before ++ cells.getD i [], _, he, ?_, (width_of_simple simple_gap).trans charSum_gap⟩
  rw [width_of_simple (hbefore.append (simple_getD hs i)), charSum_append, hsum]

end

/-! ### Lines of columns -/

/-- A line that shows a part in each column, cut or padded to its width, and gaps between them. -/
structure InColumns (widths : List Nat) (parts : List Text) (line : Text) : Prop where
  width_eq : line.width = spread widths
  showsAt : ∀ i < widths.length,
    ShowsAt (offset widths i) (widths.getD i 0) (pad (widths.getD i 0) (parts.getD i [])) line
  showsAt_gap : ∀ i, i + 1 < widths.length →
    ShowsAt (offset widths i + widths.getD i 0) 3 (List.replicate 3 ' ') line

/-- A line filled up with spaces to the width of columns with their gaps. -/
def filledUp (widths : List Nat) (line : Text) : Text :=
  line ++ List.replicate (spread widths - line.width) ' '

section

variable {widths : List Nat} {blocks : List (List Text)}
  (h : List.Forall₂ (fun _ block => ∀ line ∈ block, Simple line) widths blocks) (row : Nat)
include h

theorem getD_cells (i : Nat) (hi : i < widths.length) : (cells blocks widths row).getD i [] =
    pad (widths.getD i 0) ((blocks.map (·.getD row [])).getD i []) := by
  have hblock : i < blocks.length := h.length_eq ▸ hi
  simp only [cells, List.getD_eq_getElem?_getD, List.getElem?_zipWith, List.getElem?_map,
    List.getElem?_eq_getElem hi, List.getElem?_eq_getElem hblock, Option.map_some, Option.getD_some]

theorem inColumns_join : InColumns widths (blocks.map (·.getD row []))
    (join gap (cells blocks widths row)) := by
  have hsimple : ∀ cell ∈ cells blocks widths row, cell.Simple :=
    simple_of_mem_cells (simple_of_forall₂ h) row
  have hsum := map_charSum_cells h row
  have hlen : (cells blocks widths row).length = widths.length := by
    rw [← List.length_map (f := charSum), hsum]
  have hcell : ∀ i, charSum ((cells blocks widths row).getD i []) = widths.getD i 0 := fun i =>
    calc charSum ((cells blocks widths row).getD i [])
        = ((cells blocks widths row).map charSum).getD i 0 := (List.getD_map _ [] charSum).symm
      _ = widths.getD i 0 := by rw [hsum]
  refine ⟨?_, fun i hi => ?_, fun i hi => ?_⟩
  · rw [width_of_simple (simple_join simple_gap hsimple)]
    exact charSum_join_cells h row
  · have hshows := showsAt_join hsimple (hlen ▸ hi)
    rwa [hsum, hcell, getD_cells h row i hi] at hshows
  · have hshows := showsAt_gap_join hsimple (hlen ▸ hi)
    rwa [hsum, hcell] at hshows

/-- Filling up a line gives the cells back that it was trimmed from. -/
theorem filledUp_getD_joinColumns (hrow : row < (joinColumns blocks widths).length) :
    filledUp widths ((joinColumns blocks widths).getD row []) =
      join gap (cells blocks widths row) := by
  have hsimple : (join gap (cells blocks widths row)).Simple :=
    simple_join simple_gap (simple_of_mem_cells (simple_of_forall₂ h) row)
  have hline : (joinColumns blocks widths).getD row [] =
      trimEnd (join gap (cells blocks widths row)) := by
    rw [joinColumns, List.length_map, List.length_range] at hrow
    rw [joinColumns, List.getD_eq_getElem?_getD, List.getElem?_map, List.getElem?_range hrow]
    rfl
  rw [hline, filledUp, ← charSum_join_cells h row]
  exact trimEnd_append_spaces hsimple

end

/-! ### Groups -/

/-- A missing line is an empty one, so the line that stands for an empty block adds nothing. -/
theorem getD_columnLines (block : List Text) (row : Nat) :
    (columnLines block).getD row [] = (dropBlankEnds block).getD row [] := by
  rw [columnLines]
  cases dropBlankEnds block with
  | nil => cases row <;> rfl
  | cons line more => rfl

theorem length_columnLines (block : List Text) :
    (columnLines block).length = max 1 (dropBlankEnds block).length := by
  rw [columnLines]
  cases dropBlankEnds block with
  | nil => rfl
  | cons line more => exact (Nat.max_eq_right (Nat.succ_le_succ (Nat.zero_le _))).symm

/-- The lines of each child laid out for a column of its own, without the blank ones at either
end. -/
def trimmedColumns (widths : List Nat) (children : List Node) : List (List Text) :=
  List.zipWith (fun w child => dropBlankEnds (lines w child)) widths children

theorem columns_eq_zipWith (widths : List Nat) (ts : List Node) :
    columns widths ts = List.zipWith (fun w t => columnLines (lines w t)) widths ts := by
  induction widths generalizing ts with
  | nil => simp [columns]
  | cons w widths ih =>
    cases ts with
    | nil => simp [columns]
    | cons t ts => rw [columns, ih, List.zipWith_cons_cons]

theorem map_getD_columns (widths : List Nat) (ts : List Node) (row : Nat) :
    (columns widths ts).map (·.getD row []) = (trimmedColumns widths ts).map (·.getD row []) := by
  rw [columns_eq_zipWith, trimmedColumns, List.map_zipWith, List.map_zipWith]
  simp only [getD_columnLines]

theorem foldr_max_map_max_one {ns : List Nat} (hne : ns ≠ []) :
    (ns.map (max 1)).foldr max 0 = max 1 (ns.foldr max 0) := by
  induction ns with
  | nil => contradiction
  | cons n ns ih =>
    rw [List.map_cons, List.foldr_cons, List.foldr_cons]
    by_cases hns : ns = []
    · subst hns
      exact Nat.max_assoc 1 n 0
    · rw [ih hns]
      omega

/-- Columns are as tall as the tallest of them, and hold at least one line. -/
theorem height_columns {widths : List Nat} {ts : List Node} (hlen : widths.length = ts.length)
    (hne : ts ≠ []) : ((columns widths ts).map List.length).foldr max 0 =
      max 1 (((trimmedColumns widths ts).map List.length).foldr max 0) := by
  have hmap : (columns widths ts).map List.length =
      ((trimmedColumns widths ts).map List.length).map (max 1) := by
    rw [columns_eq_zipWith, trimmedColumns, List.map_zipWith, List.map_zipWith, List.map_zipWith]
    simp only [length_columnLines]
  have hblocks : (trimmedColumns widths ts).map List.length ≠ [] := by
    have hpos : 0 < ts.length := List.length_pos_iff.2 hne
    refine List.ne_nil_of_length_pos ?_
    simp [trimmedColumns, hlen, hpos]
  rw [hmap, foldr_max_map_max_one hblocks]

theorem lines_group_of_two_le (width : Nat) {children : List Node} (hn : 2 ≤ children.length) :
    lines width (.group children) =
      joinColumns (columns (columnWidths (children.map Node.ratio) width) children)
        (columnWidths (children.map Node.ratio) width) := by
  match children, hn with
  | first :: second :: more, _ => exact lines_group width first second more

/-- Every line of a group of two children or more, filled up with the spaces that were trimmed from
it, shows the line of each child's trimmed lines at its height in the columns of the child. There
are as many lines as the child with the most has, and at least one. -/
theorem inColumns_lines_group (width : Nat) {children : List Node} (hn : 2 ≤ children.length)
    (hs : ∀ text ∈ (Node.group children).rows, text.Simple) :
    let widths := columnWidths (children.map Node.ratio) width
    let blocks := trimmedColumns widths children
    let page := lines width (.group children)
    widths.length = children.length ∧
      page.length = max 1 ((blocks.map List.length).foldr max 0) ∧
      ∀ row < page.length,
        InColumns widths (blocks.map (·.getD row [])) (filledUp widths (page.getD row [])) := by
  intro widths blocks page
  have hlen : widths.length = children.length := length_columnWidths_map children width
  have hne : children ≠ [] := List.ne_nil_of_length_pos (by omega)
  have hpage : page = joinColumns (columns widths children) widths :=
    lines_group_of_two_le width hn
  have hcolumns := simple_columns hlen hs
  refine ⟨hlen, ?_, fun row hrow => ?_⟩
  · rw [hpage, joinColumns, List.length_map, List.length_range, height_columns hlen hne]
  · rw [hpage] at hrow ⊢
    rw [filledUp_getD_joinColumns hcolumns row hrow, ← map_getD_columns]
    exact inColumns_join hcolumns row

/-- Three columns of different heights, the second of them wider than its place, with a wide
character next to the cut. -/
def sampleColumns : List Node :=
  [.row "# 見出し".toList,
    .group [.row "a一二三四五六七八九 b".toList, .row "cut off".toList],
    .sect "empty".toList none []]

theorem inColumns_lines_group_sampleColumns :
    2 ≤ sampleColumns.length ∧ (∀ text ∈ (Node.group sampleColumns).rows, text.Simple) ∧
      lines 40 (.group sampleColumns) =
        ["見出し               a一二三四五六七八    (empty)", "                     九 b"].map
          String.toList ∧
      ShowsAt (offset (columnWidths (sampleColumns.map Node.ratio) 40) 1)
        ((columnWidths (sampleColumns.map Node.ratio) 40).getD 1 0)
        (pad ((columnWidths (sampleColumns.map Node.ratio) 40).getD 1 0)
          "a一二三四五六七八    cut off".toList)
        (filledUp (columnWidths (sampleColumns.map Node.ratio) 40)
          "見出し               a一二三四五六七八    (empty)".toList) := by
  have hn : 2 ≤ sampleColumns.length := by decide
  have hsimple : ∀ text ∈ (Node.group sampleColumns).rows, text.Simple := by decide
  have hpage : lines 40 (.group sampleColumns) =
      ["見出し               a一二三四五六七八    (empty)", "                     九 b"].map
        String.toList := by decide +kernel
  obtain ⟨hlen, -, hlines⟩ := inColumns_lines_group 40 hn hsimple
  have hfirst := (hlines 0 (by rw [hpage]; decide)).showsAt 1 (by rw [hlen]; decide)
  have hpart : ((trimmedColumns (columnWidths (sampleColumns.map Node.ratio) 40)
      sampleColumns).map (·.getD 0 [])).getD 1 [] = "a一二三四五六七八    cut off".toList := by
    decide +kernel
  rw [hpage, hpart] at hfirst
  exact ⟨hn, hsimple, hpage, hfirst⟩

end Layout

end Wireframe
