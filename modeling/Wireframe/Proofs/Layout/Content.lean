import Wireframe.Proofs.Layout.Room

/-! The content of a layout. Texts are broken into lines, and lines are padded, framed and
set side by side. Where there is room, only white space is cut off or trimmed away, so
each way of putting lines together keeps count of all other characters. Only frames and
the line for an empty section put in characters of their own (`ornaments`): a layout
shows the characters of its rows' plain forms as often as they do (`count_lines`). -/

namespace Wireframe.Layout

open Text Width

/-- The characters that a layout puts in: those of frames and of the line for an empty section. -/
def ornaments : Text := ['+', '-', '|'] ++ emptyLine

/-- How often a character is shown in lines. -/
def shown (c : Char) (ls : List Text) : Nat := ls.flatten.count c

/-- A character is shown as often as it is asked for, and not more often unless it is an
ornament. -/
def Covers (c : Char) (asked shown : Nat) : Prop :=
  asked ≤ shown ∧ (c ∉ ornaments → shown = asked)

variable {c : Char}

@[simp] theorem shown_nil : shown c [] = 0 := rfl

@[simp] theorem shown_cons (line : Text) (ls : List Text) :
    shown c (line :: ls) = line.count c + shown c ls := by
  rw [shown, List.flatten_cons, List.count_append, shown]

@[simp] theorem shown_append (ls ms : List Text) :
    shown c (ls ++ ms) = shown c ls + shown c ms := by
  rw [shown, List.flatten_append, List.count_append, shown, shown]

theorem count_eq_of_ink (hc : blank c = false) {s t : Text} (h : ink s = ink t) :
    s.count c = t.count c := by
  rw [← count_ink hc s, h, count_ink hc]

theorem count_of_isBlank (hc : blank c = false) {t : Text} (h : isBlank t = true) :
    t.count c = 0 := by
  rw [← count_ink hc, ink_eq_nil_iff.2 h, List.count_nil]

namespace Covers

theorem of_eq {asked shown : Nat} (h : shown = asked) : Covers c asked shown :=
  ⟨Nat.le_of_eq h.symm, fun _ => h⟩

theorem add {a b s t : Nat} (hs : Covers c a s) (ht : Covers c b t) : Covers c (a + b) (s + t) :=
  ⟨Nat.add_le_add hs.1 ht.1, fun hc => by rw [hs.2 hc, ht.2 hc]⟩

theorem trans {a s t : Nat} (hs : Covers c a s) (ht : Covers c s t) : Covers c a t :=
  ⟨Nat.le_trans hs.1 ht.1, fun hc => (ht.2 hc).trans (hs.2 hc)⟩

/-- Ornaments may be put in anywhere. -/
theorem of_ornaments {t : Text} (h : ∀ d ∈ t, d ∈ ornaments) : Covers c 0 (t.count c) :=
  ⟨Nat.zero_le _, fun hc => List.count_eq_zero.2 fun ht => hc (h c ht)⟩

end Covers

/-! ### Blank lines -/

theorem shown_dropWhile_isBlank (hc : blank c = false) (ls : List Text) :
    shown c (ls.dropWhile isBlank) = shown c ls := by
  induction ls with
  | nil => rfl
  | cons line ls ih =>
    cases hb : isBlank line with
    | true =>
      rw [List.dropWhile_cons_of_pos hb, ih, shown_cons, count_of_isBlank hc hb, Nat.zero_add]
    | false => rw [List.dropWhile_cons_of_neg (Bool.eq_false_iff.1 hb)]

theorem shown_reverse (ls : List Text) : shown c ls.reverse = shown c ls :=
  ls.reverse_perm.flatten.count_eq c

theorem shown_dropBlankEnds (hc : blank c = false) (ls : List Text) :
    shown c (dropBlankEnds ls) = shown c ls := by
  rw [dropBlankEnds, shown_reverse, shown_dropWhile_isBlank hc, shown_reverse,
    shown_dropWhile_isBlank hc]

theorem shown_columnLines (hc : blank c = false) (block : List Text) :
    shown c (columnLines block) = shown c block := by
  rw [← shown_dropBlankEnds hc block, columnLines]
  split
  · next he => rw [List.isEmpty_iff.1 he]; rfl
  · rfl

/-- Empty lines between blocks show nothing. -/
theorem shown_intercalate (blocks : List (List Text)) :
    shown c ([[]].intercalate blocks) = shown c blocks.flatten := by
  have hmore : ∀ more : List (List Text),
      shown c (more.flatMap ([[]] ++ ·)) = shown c more.flatten := by
    intro more
    induction more with
    | nil => rfl
    | cons block more ih =>
      rw [List.flatMap_cons, List.flatten_cons, shown_append, shown_append, shown_append, ih,
        show shown c [[]] = 0 from rfl, Nat.zero_add]
  cases blocks with
  | nil => rfl
  | cons first more => rw [intercalate_cons, shown_append, hmore, List.flatten_cons, shown_append]

theorem covers_stackLines (hc : blank c = false) (blocks : List (List Text)) :
    Covers c (shown c blocks.flatten) (shown c (stackLines blocks)) := by
  have hstack := shown_dropBlankEnds hc ([[]].intercalate blocks)
  rw [shown_intercalate] at hstack
  rw [stackLines, ← hstack]
  split
  · next he =>
    rw [List.isEmpty_iff.1 he, shown_nil, shown_cons, shown_nil, Nat.add_zero]
    exact .of_ornaments fun d hd => List.mem_append_right _ hd
  · exact .of_eq rfl

/-! ### Frames -/

theorem shown_wrap (hc : blank c = false) {width : Nat} (hw : 2 ≤ width) (t : Text) :
    shown c (wrap width t) = t.count c :=
  count_eq_of_ink hc (ink_wrap hw t)

theorem shown_fitLine (hc : blank c = false) {room : Nat} (hr : 2 ≤ room) {line : Text}
    (h : charSum line ≤ room) : shown c (fitLine room line) = line.count c := by
  rw [fitLine]
  split
  · rw [cut_of_charSum_le h, shown_cons, shown_nil, Nat.add_zero]
  · exact shown_wrap hc hr line

theorem shown_flatMap_fitLine (hc : blank c = false) {room : Nat} (hr : 2 ≤ room) {ls : List Text}
    (h : Tight room ls) : shown c (ls.flatMap (fitLine room)) = shown c ls := by
  induction ls with
  | nil => rfl
  | cons line ls ih =>
    obtain ⟨hline, hls⟩ := List.forall_mem_cons.1 h
    rw [List.flatMap_cons, shown_append, shown_fitLine hc hr hline.2, ih hls, shown_cons]

theorem covers_side (hc : blank c = false) {room : Nat} {line : Text} (h : charSum line ≤ room) :
    Covers c (line.count c) ((side room line).count c) := by
  have hpipe : Covers c 0 (List.count c ['|']) :=
    .of_ornaments (List.forall_mem_singleton.2 (by decide))
  have hsides : (side room line).count c =
      List.count c ['|'] + line.count c + List.count c ['|'] := by
    rw [side, ← count_eq_of_ink hc (ink_pad h), ← List.count_append, ← List.count_append]
    rfl
  rw [hsides]
  simpa using (hpipe.add (.of_eq rfl)).add hpipe

theorem covers_map_side (hc : blank c = false) {room : Nat} {ls : List Text} (h : Tight room ls) :
    Covers c (shown c ls) (shown c (ls.map (side room))) := by
  induction ls with
  | nil => exact .of_eq rfl
  | cons line ls ih =>
    obtain ⟨hline, hls⟩ := List.forall_mem_cons.1 h
    rw [List.map_cons, shown_cons, shown_cons]
    exact (covers_side hc hline.2).add (ih hls)

theorem covers_border (width : Nat) : Covers c 0 ((border width).count c) := by
  refine .of_ornaments fun d hd => List.mem_append_left _ ?_
  simp only [border, List.cons_append, List.mem_cons, List.mem_append, List.mem_replicate] at hd
  rcases hd with rfl | ⟨-, rfl⟩ | rfl | hd
  · decide
  · decide
  · decide
  · contradiction

/-- A frame shows the lines that have room in it. -/
theorem covers_frame (hc : blank c = false) {width : Nat} {ls : List Text}
    (h : Tight (interior width) ls) : Covers c (shown c ls) (shown c (frame width ls)) := by
  have hr := two_le_interior width
  have hparts : Tight (interior width) (ls.flatMap (fitLine (interior width))) := by
    intro part hp
    obtain ⟨line, hl, hp⟩ := List.mem_flatMap.1 hp
    exact tight_fitLine hr (h line hl).1 part hp
  have hsides := covers_map_side hc hparts
  rw [shown_flatMap_fitLine hc hr h] at hsides
  rw [frame, List.cons_append, shown_cons, shown_append, shown_cons, shown_nil]
  simpa using (covers_border width).add (hsides.add (covers_border width))

/-! ### Columns -/

theorem shown_map_append {α : Type} (rows : List α) (f g : α → Text) :
    shown c (rows.map fun r => f r ++ g r) = shown c (rows.map f) + shown c (rows.map g) := by
  induction rows with
  | nil => rfl
  | cons r rows ih =>
    simp only [List.map_cons, shown_cons, List.count_append, ih]
    omega

/-- A block's lines in the rows of a table at least as high. -/
theorem map_getD_range {height : Nat} {ls : List Text} (h : ls.length ≤ height) :
    (List.range height).map (fun row => ls.getD row []) =
      ls ++ List.replicate (height - ls.length) [] := by
  refine List.ext_getElem (by simp; omega) fun i hi _ => ?_
  rw [List.getElem_map, List.getElem_range, List.getD_eq_getElem?_getD, List.getElem_append]
  split
  · next hl => rw [List.getElem?_eq_getElem hl, Option.getD_some]
  · next hl =>
    rw [List.getElem?_eq_none (Nat.not_lt.1 hl), List.getElem_replicate, Option.getD_none]

/-- Row by row, blocks side by side show what they show one by one. -/
theorem shown_rows {height : Nat} {blocks : List (List Text)}
    (h : ∀ block ∈ blocks, block.length ≤ height) :
    shown c ((List.range height).map fun row => (blocks.map (·.getD row [])).flatten) =
      shown c blocks.flatten := by
  induction blocks with
  | nil =>
    simp [shown]
  | cons block blocks ih =>
    obtain ⟨hblock, hblocks⟩ := List.forall_mem_cons.1 h
    simp only [List.map_cons, List.flatten_cons]
    rw [shown_map_append, ih hblocks, map_getD_range hblock, shown_append, shown_append]
    simp [shown]

theorem length_le_height {blocks : List (List Text)} {block : List Text} (h : block ∈ blocks) :
    block.length ≤ (blocks.map List.length).foldr max 0 := by
  induction blocks with
  | nil => contradiction
  | cons first blocks ih =>
    rw [List.map_cons, List.foldr_cons]
    rcases List.mem_cons.1 h with rfl | h
    · exact Nat.le_max_left _ _
    · exact Nat.le_trans (ih h) (Nat.le_max_right _ _)

theorem ink_flatten_cells {blocks : List (List Text)} {widths : List Nat} {row : Nat}
    (h : List.Forall₂ Tight widths blocks) :
    ink (cells blocks widths row).flatten = ink (blocks.map (·.getD row [])).flatten := by
  induction h with
  | nil => rfl
  | cons hb _ ih =>
    rw [cells, List.zipWith_cons_cons, List.flatten_cons, ink_append, ink_pad (hb.getD row).2,
      List.map_cons, List.flatten_cons, ink_append]
    exact congrArg _ ih

/-- Columns side by side show the lines that have room in them. -/
theorem shown_joinColumns (hc : blank c = false) {blocks : List (List Text)} {widths : List Nat}
    (h : List.Forall₂ Tight widths blocks) :
    shown c (joinColumns blocks widths) = shown c blocks.flatten := by
  have hline : ∀ row,
      (trimEnd (join (List.replicate columnGap ' ') (cells blocks widths row))).count c =
        ((blocks.map (·.getD row [])).flatten).count c := by
    intro row
    refine count_eq_of_ink hc ?_
    rw [ink_trimEnd, ink_join (by decide), ink_flatten_cells h]
  rw [← shown_rows fun _ hb => length_le_height hb]
  simp only [shown, joinColumns, List.count_flatten, List.map_map]
  congr 1
  exact List.map_congr_left fun row _ => hline row

/-! ### Nodes -/

theorem covers_sect (hc : blank c = false) {width : Nat} (hw : columnFloor ≤ width) {framed : Bool}
    (hroom : framed = true → 20 ≤ width) {blocks : List (List Text)}
    (h : ∀ block ∈ blocks, Tight (innerWidth framed width) block) :
    Covers c (shown c blocks.flatten)
      (shown c (if framed then frame width (stackLines blocks) else stackLines blocks)) := by
  have hstack := covers_stackLines hc blocks
  have htight := tight_stackLines (columnFloor_le_innerWidth framed width) h
  cases framed with
  | false => exact hstack
  | true =>
    -- only from twenty columns on is a frame as wide inside as its section is laid out for
    rw [innerWidth_true (hroom rfl), ← interior_eq hw] at htight
    exact hstack.trans (covers_frame hc htight)

mutual

theorem covers_lines (hc : blank c = false) {width : Nat} (hw : columnFloor ≤ width) :
    ∀ t : Node, Fits width t → (∀ text ∈ t.rows, text.Simple) →
      Covers c (shown c (t.rows.map Row.plain)) (shown c (lines width t))
  | .root children, hf, hs => by
    rw [lines, shown_dropBlankEnds hc]
    exact covers_blocks hc hw children hf hs
  | .sect name ratio children, hf, hs => by
    obtain ⟨hroom, hf⟩ := fitAll_of_fits_sect hw hf
    have hinner := columnFloor_le_innerWidth (isFramed ratio children) width
    have hsect := covers_sect hc hw hroom (tight_blocks hinner children hf hs)
    rw [lines]
    exact (covers_blocks hc hinner children hf hs).trans hsect
  | .group [], _, _ => .of_eq rfl
  | .group [child], hf, hs => by
    rw [Node.rows_group, Node.rowsAll_cons, Node.rowsAll_nil, List.append_nil] at hs ⊢
    rw [lines, shown_dropBlankEnds hc]
    exact covers_lines hc hw child hf hs
  | .group (first :: second :: more), hf, hs => by
    obtain ⟨-, hf⟩ := hf
    have hlen := length_columnWidths_map (first :: second :: more) width
    have hcolumns := tight_columns (fun _ h => columnFloor_le_of_mem h) hlen hf hs
    rw [lines_group, shown_joinColumns hc hcolumns]
    exact covers_columns hc (fun _ h => columnFloor_le_of_mem h) hlen hf hs
  | .row text, _, hs => by
    have hfloor : 2 ≤ columnFloor := by decide
    rw [lines, Nat.max_eq_left hw, shown_wrap hc (Nat.le_trans hfloor hw), Node.rows_row,
      List.map_cons, List.map_nil, shown_cons, shown_nil, Nat.add_zero]
    exact .of_eq rfl

theorem covers_blocks (hc : blank c = false) {width : Nat} (hw : columnFloor ≤ width) :
    ∀ ts : List Node, FitAll width ts → (∀ text ∈ Node.rowsAll ts, text.Simple) →
      Covers c (shown c ((Node.rowsAll ts).map Row.plain)) (shown c (blocks width ts).flatten)
  | [], _, _ => .of_eq rfl
  | t :: ts, hf, hs => by
    rw [Node.rowsAll_cons, List.forall_mem_append] at hs
    rw [Node.rowsAll_cons, List.map_append, shown_append, blocks, List.flatten_cons, shown_append]
    exact (covers_lines hc hw t hf.1 hs.1).add (covers_blocks hc hw ts hf.2 hs.2)

theorem covers_columns (hc : blank c = false) :
    ∀ {widths : List Nat} {ts : List Node}, (∀ w ∈ widths, columnFloor ≤ w) →
      widths.length = ts.length → FitColumns widths ts → (∀ text ∈ Node.rowsAll ts, text.Simple) →
        Covers c (shown c ((Node.rowsAll ts).map Row.plain)) (shown c (columns widths ts).flatten)
  | [], [], _, _, _, _ => .of_eq rfl
  | w :: ws, t :: ts, hw, hlen, hf, hs => by
    rw [Node.rowsAll_cons, List.forall_mem_append] at hs
    rw [List.forall_mem_cons] at hw
    rw [Node.rowsAll_cons, List.map_append, shown_append, columns, List.flatten_cons, shown_append,
      shown_columnLines hc]
    exact (covers_lines hc hw.1 t hf.1 hs.1).add
      (covers_columns hc hw.2 (Nat.succ.inj hlen) hf.2 hs.2)

end

theorem count_eq_zero_of_not_simple (h : isSimple c = false) {t : Text} (ht : t.Simple) :
    t.count c = 0 := by
  refine List.count_eq_zero.2 fun hc => ?_
  rw [ht c hc] at h
  contradiction

/-- The layout of a tree that has room shows what its rows show: every character as often as the
plain forms of the rows, and an ornament at least as often. -/
theorem count_lines {width : Nat} (hw : 18 ≤ width) {t : Node} (hf : Fits width t)
    (hs : ∀ text ∈ t.rows, text.Simple) {c : Char} (hc : c ≠ ' ') :
    (t.rows.map Row.plain).flatten.count c ≤ (lines width t).flatten.count c ∧
      (c ∉ ornaments →
        (lines width t).flatten.count c = (t.rows.map Row.plain).flatten.count c) := by
  cases hsimple : isSimple c with
  | true => exact covers_lines (not_blank_of_isSimple hsimple hc) hw t hf hs
  | false =>
    -- neither the rows nor the lines hold a character that is not simple
    have hlines : Simple (lines width t).flatten :=
      simple_flatten fun line hl => (tight_lines hw t hf hs line hl).1
    have hrows : Simple (t.rows.map Row.plain).flatten := by
      refine simple_flatten fun line hl => ?_
      obtain ⟨text, ht, rfl⟩ := List.mem_map.1 hl
      exact Row.simple_plain (hs text ht)
    rw [count_eq_zero_of_not_simple hsimple hlines, count_eq_zero_of_not_simple hsimple hrows]
    exact ⟨Nat.le_refl 0, fun _ => rfl⟩

/-- A frame with two columns, and a section with nothing to show. -/
def sampleForm : Node :=
  .root [
    .sect "form".toList (some ⟨1, 2⟩) [
      .group [
        .row "# 名前".toList,
        .sect "entry".toList none [.row "^full_name".toList, .row "!!Save".toList]]],
    .sect "notes".toList none []]

theorem count_lines_sampleForm :
    Fits 60 sampleForm ∧ (∀ text ∈ sampleForm.rows, text.Simple) ∧
      (lines 60 sampleForm).flatten.count '名' =
        (sampleForm.rows.map Row.plain).flatten.count '名' ∧
      (sampleForm.rows.map Row.plain).flatten.count 'e' ≤
        (lines 60 sampleForm).flatten.count 'e' := by
  have hfits : Fits 60 sampleForm := by decide
  have hsimple : ∀ text ∈ sampleForm.rows, text.Simple := by decide
  have hwide : 18 ≤ 60 := by decide
  exact ⟨hfits, hsimple, (count_lines hwide hfits hsimple (by decide)).2 (by decide),
    (count_lines hwide hfits hsimple (by decide)).1⟩

end Wireframe.Layout
