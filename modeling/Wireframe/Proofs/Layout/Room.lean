import Wireframe.Layout.Lines
import Wireframe.Proofs.Row.Plain
import Wireframe.Proofs.Text.Join
import Wireframe.Proofs.Width.Wrap
import Mathlib.Data.List.Forall2

/-! Room in a layout. A node fits a width when the columns of its groups and the insides of
its frames are as wide as they are asked to be (`Fits`). Where the rows are simple, no
line of a node that fits is wider than the width it is laid out for (`tight_lines`): each
way of putting lines together has its lemma, and the nodes are gone through in the order
in which they are laid out. -/

namespace Wireframe

/-! ### Rows -/

def Item.row? : Item → Option Text
  | .row text => some text
  | _ => none

namespace Node

/-- The texts of the rows in document order. -/
def rows (t : Node) : List Text := t.items.filterMap Item.row?

def rowsAll (ts : List Node) : List Text := (itemsAll ts).filterMap Item.row?

@[simp] theorem rows_root (children : List Node) : (root children).rows = rowsAll children := rfl

@[simp] theorem rows_sect (name : Text) (ratio : Option Ratio) (children : List Node) :
    (sect name ratio children).rows = rowsAll children := rfl

@[simp] theorem rows_group (children : List Node) : (group children).rows = rowsAll children := rfl

@[simp] theorem rows_row (text : Text) : (row text).rows = [text] := rfl

@[simp] theorem rowsAll_nil : rowsAll [] = [] := rfl

@[simp] theorem rowsAll_cons (t : Node) (ts : List Node) :
    rowsAll (t :: ts) = t.rows ++ rowsAll ts := List.filterMap_append ..

end Node

namespace Layout

open Text Width

/-! ### Fitting -/

mutual

/-- Whether there is room for a node in a width: the columns of each group in it are no wider than
the group's width, and each frame leaves its section the width of a column. -/
def Fits (width : Nat) : Node → Prop
  | .root children => FitAll width children
  | .sect _ ratio children =>
    if isFramed ratio children then 20 ≤ width ∧ FitAll (width - 2) children
    else FitAll width children
  | .group [] => True
  | .group [child] => Fits width child
  | .group children =>
    let widths := columnWidths (children.map Node.ratio) width
    spread widths ≤ width ∧ FitColumns widths children
  | .row _ => True

def FitAll (width : Nat) : List Node → Prop
  | [] => True
  | t :: ts => Fits width t ∧ FitAll width ts

/-- Each node fits the column of its own. -/
def FitColumns : (widths : List Nat) → List Node → Prop
  | w :: ws, t :: ts => Fits w t ∧ FitColumns ws ts
  | _, _ => True

end

mutual

def decidableFits (width : Nat) : (t : Node) → Decidable (Fits width t)
  | .root children => decidableFitAll width children
  | .sect _ ratio children =>
    haveI := decidableFitAll (width - 2) children
    haveI := decidableFitAll width children
    inferInstanceAs (Decidable (if isFramed ratio children then _ else _))
  | .group [] => .isTrue trivial
  | .group [child] => decidableFits width child
  | .group (first :: second :: more) =>
    @instDecidableAnd _ _ (Nat.decLe _ _) (decidableFitColumns _ (first :: second :: more))
  | .row _ => .isTrue trivial

def decidableFitAll (width : Nat) : (ts : List Node) → Decidable (FitAll width ts)
  | [] => .isTrue trivial
  | t :: ts =>
    haveI := decidableFits width t
    haveI := decidableFitAll width ts
    inferInstanceAs (Decidable (Fits width t ∧ FitAll width ts))

def decidableFitColumns :
    (widths : List Nat) → (ts : List Node) → Decidable (FitColumns widths ts)
  | w :: ws, t :: ts =>
    haveI := decidableFits w t
    haveI := decidableFitColumns ws ts
    inferInstanceAs (Decidable (Fits w t ∧ FitColumns ws ts))
  | [], [] => .isTrue trivial
  | [], _ :: _ => .isTrue trivial
  | _ :: _, [] => .isTrue trivial

end

instance (width : Nat) (t : Node) : Decidable (Fits width t) := decidableFits width t

/-! ### Lines that keep to a width -/

/-- Simple lines that have room in a width. -/
def Tight (width : Nat) (lines : List Text) : Prop :=
  ∀ line ∈ lines, line.Simple ∧ charSum line ≤ width

theorem Tight.mono {width : Nat} {ls ms : List Text} (h : Tight width ls) (hm : ∀ l ∈ ms, l ∈ ls) :
    Tight width ms :=
  fun l hl => h l (hm l hl)

theorem Tight.widen {v w : Nat} {ls : List Text} (h : Tight v ls) (hw : v ≤ w) : Tight w ls :=
  fun l hl => ⟨(h l hl).1, Nat.le_trans (h l hl).2 hw⟩

theorem tight_empty (width : Nat) : Tight width [[]] := by
  simp [Tight, Simple, charSum]

theorem getD_of_forall {p : Text → Prop} (hnil : p []) {ls : List Text} (h : ∀ line ∈ ls, p line)
    (i : Nat) : p (ls.getD i []) := by
  rw [List.getD_eq_getElem?_getD]
  cases hi : ls[i]? with
  | none => exact hnil
  | some line => exact h line (List.mem_of_getElem? hi)

theorem simple_getD {ls : List Text} (h : ∀ line ∈ ls, line.Simple) (i : Nat) :
    (ls.getD i []).Simple :=
  getD_of_forall simple_nil h i

theorem Tight.getD {width : Nat} {ls : List Text} (h : Tight width ls) (i : Nat) :
    (ls.getD i []).Simple ∧ charSum (ls.getD i []) ≤ width :=
  getD_of_forall (p := fun line => line.Simple ∧ charSum line ≤ width)
    (tight_empty width [] (List.mem_singleton.2 rfl)) h i

theorem dropBlankEnds_sublist (ls : List Text) : (dropBlankEnds ls).Sublist ls := by
  have hback := List.dropWhile_sublist (l := (ls.dropWhile isBlank).reverse) isBlank
  have hfront := List.dropWhile_sublist (l := ls) isBlank
  rw [dropBlankEnds]
  simpa using hback.reverse.trans (by simpa using hfront)

theorem Tight.dropBlankEnds {width : Nat} {ls : List Text} (h : Tight width ls) :
    Tight width (dropBlankEnds ls) :=
  h.mono fun _ hl => (dropBlankEnds_sublist ls).mem hl

theorem mem_of_mem_columnLines {block : List Text} {line : Text} (h : line ∈ columnLines block) :
    line = [] ∨ line ∈ block := by
  rw [columnLines] at h
  split at h
  · exact .inl (List.mem_singleton.1 h)
  · exact .inr ((dropBlankEnds_sublist block).mem h)

theorem mem_of_mem_stackLines {blocks : List (List Text)} {line : Text}
    (h : line ∈ stackLines blocks) : line = emptyLine ∨ line = [] ∨ line ∈ blocks.flatten := by
  rw [stackLines] at h
  split at h
  · exact .inl (List.mem_singleton.1 h)
  · rcases mem_of_mem_intercalate ((dropBlankEnds_sublist _).mem h) with h | h
    · exact .inr (.inl (List.mem_singleton.1 h))
    · exact .inr (.inr h)

theorem Tight.columnLines {width : Nat} {block : List Text} (h : Tight width block) :
    Tight width (columnLines block) := by
  intro line hl
  rcases mem_of_mem_columnLines hl with rfl | hl
  · exact tight_empty width [] (List.mem_singleton.2 rfl)
  · exact h line hl

theorem tight_wrap {width : Nat} (hw : 2 ≤ width) {t : Text} (h : t.Simple) :
    Tight width (wrap width t) :=
  fun _ hl => ⟨simple_of_mem_wrap h hl, charSum_le_of_mem_wrap hw h hl⟩

theorem simple_emptyLine : emptyLine.Simple := by decide

theorem tight_stackLines {width : Nat} (hw : columnFloor ≤ width) {blocks : List (List Text)}
    (h : ∀ block ∈ blocks, Tight width block) : Tight width (stackLines blocks) := by
  have hempty : charSum emptyLine ≤ columnFloor := by decide
  intro line hl
  rcases mem_of_mem_stackLines hl with rfl | rfl | hl
  · exact ⟨simple_emptyLine, Nat.le_trans hempty hw⟩
  · exact tight_empty width [] (List.mem_singleton.2 rfl)
  · obtain ⟨block, hb, hl⟩ := List.mem_flatten.1 hl
    exact h block hb line hl

/-! ### Frames -/

theorem interior_eq {width : Nat} (hw : columnFloor ≤ width) : interior width = width - 2 := by
  rw [interior, Nat.max_eq_left hw]

theorem simple_side {room : Nat} {line : Text} (h : line.Simple) : (side room line).Simple :=
  Simple.append (Simple.append (s := ['|']) (by decide) (simple_pad h)) (by decide)

theorem charSum_side {room : Nat} {line : Text} (h : line.Simple) :
    charSum (side room line) = room + 2 := by
  have hpipe : charWidth '|' = 1 := by decide
  rw [side, List.cons_append, charSum, charSum_append, charSum_pad h, charSum, charSum, hpipe]
  omega

theorem simple_border (width : Nat) : (border width).Simple := by
  have hdashes : Simple (List.replicate (interior width) '-') := simple_replicate (by decide) _
  exact Simple.append (Simple.append (s := ['+']) (by decide) hdashes) (by decide)

theorem charSum_border (width : Nat) : charSum (border width) = interior width + 2 := by
  have hplus : charWidth '+' = 1 := by decide
  have hdash : charWidth '-' = 1 := by decide
  rw [border, List.cons_append, charSum, charSum_append, charSum_replicate, charSum, charSum, hplus,
    hdash]
  omega

theorem tight_fitLine {room : Nat} (hr : 2 ≤ room) {line : Text} (h : line.Simple) :
    Tight room (fitLine room line) := by
  rw [fitLine]
  split
  · exact List.forall_mem_singleton.2 ⟨simple_cut h, charSum_cut_le room line⟩
  · exact tight_wrap hr h

theorem two_le_interior (width : Nat) : 2 ≤ interior width := by
  rw [interior, columnFloor]
  omega

/-- A line of a frame is its border, or what fits of a line in it, between the sides. -/
theorem exists_of_mem_frame {width : Nat} {ls : List Text} {line : Text}
    (h : line ∈ frame width ls) : line = border width ∨
      ∃ inner ∈ ls, ∃ part ∈ fitLine (interior width) inner, line = side (interior width) part := by
  rw [frame, List.cons_append, List.mem_cons, List.mem_append, List.mem_singleton] at h
  rcases h with h | h | h
  · exact .inl h
  · obtain ⟨part, hp, rfl⟩ := List.mem_map.1 h
    obtain ⟨inner, hinner, hp⟩ := List.mem_flatMap.1 hp
    exact .inr ⟨inner, hinner, part, hp, rfl⟩
  · exact .inl h

/-- A frame is as wide as it is asked to be, though never narrower than a column, however wide the
lines in it are. -/
theorem charSum_of_mem_frame {width : Nat} {ls : List Text} (h : ∀ line ∈ ls, line.Simple)
    {line : Text} (hl : line ∈ frame width ls) :
    line.Simple ∧ charSum line = max width columnFloor := by
  have hi : interior width + 2 = max width columnFloor := by
    rw [interior, columnFloor]
    omega
  rcases exists_of_mem_frame hl with rfl | ⟨inner, hinner, part, hp, rfl⟩
  · exact ⟨simple_border width, (charSum_border width).trans hi⟩
  · have hpart := (tight_fitLine (two_le_interior width) (h inner hinner) part hp).1
    exact ⟨simple_side hpart, (charSum_side hpart).trans hi⟩

theorem tight_frame (width : Nat) {ls : List Text} (h : ∀ line ∈ ls, line.Simple) :
    Tight (max width columnFloor) (frame width ls) :=
  fun _ hl => (charSum_of_mem_frame h hl).imp_right Nat.le_of_eq

/-! ### Columns -/

theorem charSum_join (sep : Text) (ts : List Text) :
    charSum (join sep ts) =
      (ts.map charSum).foldr (· + ·) 0 + charSum sep * (ts.length - 1) := by
  have hmore : ∀ more : List Text, charSum (more.flatMap (sep ++ ·)) =
      (more.map charSum).foldr (· + ·) 0 + charSum sep * more.length := by
    intro more
    induction more with
    | nil => rfl
    | cons t more ih =>
      rw [List.flatMap_cons, charSum_append, charSum_append, ih, List.map_cons, List.foldr_cons,
        List.length_cons, Nat.mul_succ]
      omega
  cases ts with
  | nil => rfl
  | cons first more =>
    rw [join_cons, charSum_append, hmore, List.map_cons, List.foldr_cons, List.length_cons,
      Nat.add_sub_cancel, Nat.add_assoc]

/-- The cells that stand in a line of the columns, each padded to its width. -/
def cells (blocks : List (List Text)) (widths : List Nat) (row : Nat) : List Text :=
  List.zipWith (fun block width => pad width (block.getD row [])) blocks widths

section
variable {blocks : List (List Text)} {widths : List Nat}

/-- A cell is a line of one of the blocks, or stands for one that is missing. -/
theorem exists_of_mem_cells {row : Nat} {cell : Text} (h : cell ∈ cells blocks widths row) :
    ∃ block ∈ blocks, ∃ width, cell = pad width (block.getD row []) := by
  rw [cells, ← List.map_uncurry_zip_eq_zipWith] at h
  obtain ⟨⟨block, width⟩, hz, rfl⟩ := List.mem_map.1 h
  exact ⟨block, (List.of_mem_zip hz).1, width, rfl⟩

theorem simple_of_mem_cells (h : ∀ block ∈ blocks, ∀ line ∈ block, Simple line) (row : Nat) :
    ∀ cell ∈ cells blocks widths row, cell.Simple := by
  intro cell hc
  obtain ⟨block, hb, width, rfl⟩ := exists_of_mem_cells hc
  exact simple_pad (simple_getD (h block hb) row)

theorem simple_joinColumns (h : ∀ block ∈ blocks, ∀ line ∈ block, Simple line) :
    ∀ line ∈ joinColumns blocks widths, line.Simple := by
  intro line hl
  obtain ⟨row, -, rfl⟩ := List.mem_map.1 hl
  have hgap : Simple (List.replicate columnGap ' ') := simple_replicate (by decide) _
  exact (simple_join hgap (simple_of_mem_cells h row)).mono fun _ hc => (isPrefix_trimEnd _).mem hc

variable (h : List.Forall₂ (fun _ block => ∀ line ∈ block, Simple line) widths blocks)
include h

theorem simple_of_forall₂ : ∀ block ∈ blocks, ∀ line ∈ block, Simple line := by
  induction h with
  | nil => simp
  | cons hb _ ih => exact List.forall_mem_cons.2 ⟨hb, ih⟩

theorem map_charSum_cells (row : Nat) : (cells blocks widths row).map charSum = widths := by
  induction h with
  | nil => rfl
  | cons hb _ ih =>
    rw [cells, List.zipWith_cons_cons, List.map_cons, charSum_pad (simple_getD hb row)]
    exact congrArg _ ih

theorem charSum_join_cells (row : Nat) :
    charSum (join (List.replicate columnGap ' ') (cells blocks widths row)) = spread widths := by
  rw [charSum_join, charSum_spaces, ← List.length_map (f := charSum), map_charSum_cells h, spread]

/-- Columns side by side are as wide as they are together with their gaps, however wide the lines in
them are. -/
theorem tight_joinColumns : Tight (spread widths) (joinColumns blocks widths) := by
  intro line hl
  refine ⟨simple_joinColumns (simple_of_forall₂ h) line hl, ?_⟩
  obtain ⟨row, -, rfl⟩ := List.mem_map.1 hl
  exact charSum_join_cells h row ▸ charSum_le_of_prefix (isPrefix_trimEnd _)

end

/-! ### Nodes -/

theorem columnFloor_le_innerWidth (framed : Bool) (width : Nat) :
    columnFloor ≤ innerWidth framed width := Nat.le_max_right _ _

theorem innerWidth_true {width : Nat} (hw : 20 ≤ width) : innerWidth true width = width - 2 := by
  have hfloor : columnFloor ≤ width - 2 := Nat.sub_le_sub_right hw 2
  exact Nat.max_eq_left hfloor

theorem innerWidth_false {width : Nat} (hw : columnFloor ≤ width) :
    innerWidth false width = width := Nat.max_eq_left hw

/-- The children of a section that fits have room in its inside. -/
theorem fitAll_of_fits_sect {width : Nat} (hw : columnFloor ≤ width) {name : Text}
    {ratio : Option Ratio} {children : List Node} (h : Fits width (.sect name ratio children)) :
    (isFramed ratio children = true → 20 ≤ width) ∧
      FitAll (innerWidth (isFramed ratio children) width) children := by
  rw [Fits] at h
  split at h
  · next hframed =>
    obtain ⟨hroom, hall⟩ := h
    rw [hframed, innerWidth_true hroom]
    exact ⟨fun _ => hroom, hall⟩
  · next hframed =>
    rw [Bool.not_eq_true] at hframed
    rw [hframed, innerWidth_false hw]
    exact ⟨fun hf => absurd hf Bool.false_ne_true, h⟩

theorem tight_sect {width : Nat} (hw : columnFloor ≤ width) {framed : Bool}
    {blocks : List (List Text)} (h : ∀ block ∈ blocks, Tight (innerWidth framed width) block) :
    Tight width (if framed then frame width (stackLines blocks) else stackLines blocks) := by
  have hstack := tight_stackLines (columnFloor_le_innerWidth framed width) h
  cases framed with
  | false =>
    rw [innerWidth_false hw] at hstack
    exact hstack
  | true =>
    have hframe := tight_frame width fun line hl => (hstack line hl).1
    rwa [Nat.max_eq_left hw] at hframe

/-- A group of two or more children stands in columns. -/
theorem lines_group (width : Nat) (first second : Node) (more : List Node) :
    lines width (.group (first :: second :: more)) =
      joinColumns
        (columns (columnWidths ((first :: second :: more).map Node.ratio) width)
          (first :: second :: more))
        (columnWidths ((first :: second :: more).map Node.ratio) width) := rfl

theorem length_columnWidths_map (children : List Node) (width : Nat) :
    (columnWidths (children.map Node.ratio) width).length = children.length := by
  rw [length_columnWidths, List.length_map]

mutual

/-- No line of a node that fits is wider than the width it is laid out for. -/
theorem tight_lines {width : Nat} (hw : columnFloor ≤ width) :
    ∀ t : Node, Fits width t → (∀ text ∈ t.rows, text.Simple) → Tight width (lines width t)
  | .root children, hf, hs => by
    rw [lines]
    refine Tight.dropBlankEnds fun line hl => ?_
    obtain ⟨block, hb, hl⟩ := List.mem_flatten.1 hl
    exact tight_blocks hw children hf hs block hb line hl
  | .sect name ratio children, hf, hs => by
    obtain ⟨-, hf⟩ := fitAll_of_fits_sect hw hf
    rw [lines]
    exact tight_sect hw (tight_blocks (columnFloor_le_innerWidth _ width) children hf hs)
  | .group [], _, _ => tight_empty width
  | .group [child], hf, hs => by
    rw [lines]
    exact (tight_lines hw child hf (by simpa using hs)).dropBlankEnds
  | .group (first :: second :: more), hf, hs => by
    obtain ⟨hspread, hf⟩ := hf
    have hlen := length_columnWidths_map (first :: second :: more) width
    have hcolumns := tight_columns (fun _ h => columnFloor_le_of_mem h) hlen hf hs
    rw [lines_group]
    exact (tight_joinColumns (hcolumns.imp fun _ _ hb line hl => (hb line hl).1)).widen hspread
  | .row text, _, hs => by
    have hfloor : 2 ≤ columnFloor := by decide
    rw [lines, Nat.max_eq_left hw]
    exact tight_wrap (Nat.le_trans hfloor hw) (Row.simple_plain (hs text (by simp)))

theorem tight_blocks {width : Nat} (hw : columnFloor ≤ width) :
    ∀ ts : List Node, FitAll width ts → (∀ text ∈ Node.rowsAll ts, text.Simple) →
      ∀ block ∈ blocks width ts, Tight width block
  | [], _, _ => by simp [blocks]
  | t :: ts, hf, hs => by
    rw [Node.rowsAll_cons, List.forall_mem_append] at hs
    rw [blocks]
    exact List.forall_mem_cons.2 ⟨tight_lines hw t hf.1 hs.1, tight_blocks hw ts hf.2 hs.2⟩

theorem tight_columns :
    ∀ {widths : List Nat} {ts : List Node}, (∀ w ∈ widths, columnFloor ≤ w) →
      widths.length = ts.length → FitColumns widths ts → (∀ text ∈ Node.rowsAll ts, text.Simple) →
        List.Forall₂ Tight widths (columns widths ts)
  | [], [], _, _, _, _ => .nil
  | w :: ws, t :: ts, hw, hlen, hf, hs => by
    rw [Node.rowsAll_cons, List.forall_mem_append] at hs
    rw [List.forall_mem_cons] at hw
    rw [columns]
    exact .cons (tight_lines hw.1 t hf.1 hs.1).columnLines
      (tight_columns hw.2 (Nat.succ.inj hlen) hf.2 hs.2)

end

end Layout

end Wireframe
