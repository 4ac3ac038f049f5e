import Wireframe.Proofs.Layout.Lines
import Wireframe.Proofs.Text.Clean
import Wireframe.Render

/-! Clean lines. The rows of a tree may hold any characters, yet each line of its layout is clean:
its only white space is the space, and it does not end in one. Words come out of wrapping with
single spaces between them, the lines in frames end in a pipe, and joined columns are trimmed.
The page starts and ends with a line that is not blank. So its lines are read back from
the rendered text, which is split at its line feeds (`clean_lines_of_root`). -/

namespace Wireframe

namespace Text

theorem spaced_pad {room : Nat} {t : Text} (h : t.Spaced) : (pad room t).Spaced :=
  (h.mono fun _ hc => (isPrefix_cut room t).mem hc).append (spaced_spaces _)

theorem clean_of_mem_wrap {limit : Nat} (hl : 2 ≤ limit) {t line : Text} (h : line ∈ wrap limit t) :
    line.Clean := by
  rw [← squeeze_of_mem_wrap hl h]
  exact clean_squeeze line

end Text

namespace Layout

open Text

/-! ### Frames and columns -/

theorem spaced_of_mem_fitLine {room : Nat} (hr : 2 ≤ room) {line part : Text} (h : line.Spaced)
    (hp : part ∈ fitLine room line) : part.Spaced := by
  rw [fitLine] at hp
  split at hp
  · rw [List.mem_singleton.1 hp]
    exact h.mono fun _ hc => (isPrefix_cut room line).mem hc
  · exact (clean_of_mem_wrap hr hp).spaced

theorem clean_border (width : Nat) : (border width).Clean := by
  refine clean_append_singleton (spaced_of_not_blank ?_) (by decide)
  refine List.forall_mem_cons.2 ⟨by decide, fun c hc => ?_⟩
  rw [List.eq_of_mem_replicate hc]
  decide

theorem clean_side {room : Nat} {line : Text} (h : line.Spaced) : (side room line).Clean := by
  have hpipe : Spaced ['|'] := spaced_of_not_blank (List.forall_mem_singleton.2 (by decide))
  exact clean_append_singleton (hpipe.append (spaced_pad h)) (by decide)

theorem clean_frame (width : Nat) {ls : List Text} (h : ∀ line ∈ ls, line.Clean) :
    ∀ line ∈ frame width ls, line.Clean := by
  intro line hl
  rcases exists_of_mem_frame hl with rfl | ⟨inner, hinner, part, hp, rfl⟩
  · exact clean_border width
  · exact clean_side (spaced_of_mem_fitLine (two_le_interior width) (h inner hinner).spaced hp)

theorem clean_joinColumns {blocks : List (List Text)} {widths : List Nat}
    (h : ∀ block ∈ blocks, ∀ line ∈ block, line.Clean) :
    ∀ line ∈ joinColumns blocks widths, line.Clean := by
  intro line hl
  obtain ⟨row, -, rfl⟩ := List.mem_map.1 hl
  refine clean_trimEnd (spaced_join (spaced_spaces _) fun cell hc => ?_)
  obtain ⟨block, hb, width, rfl⟩ := exists_of_mem_cells hc
  exact spaced_pad (getD_of_forall clean_nil (h block hb) row).spaced

/-! ### Nodes -/

theorem kept_clean : Kept Clean where
  nil := clean_nil
  emptyLine := by
    rw [show emptyLine = squeeze emptyLine by decide]
    exact clean_squeeze emptyLine
  frame width _ h := clean_frame width h

/-- All lines are clean, whatever the rows hold. -/
theorem clean_lines (width : Nat) (t : Node) : ∀ line ∈ lines width t, line.Clean :=
  kept_clean.lines width t (fun _ _ _ h => clean_joinColumns h) fun _ _ _ hw _ hl =>
    clean_of_mem_wrap (Nat.le_trans (by decide) hw) hl

/-! ### The page -/

/-- The first and the last line, if there are any, are not blank. -/
def InkedEnds (ls : List Text) : Prop :=
  (∀ line ∈ ls.head?, line.isBlank = false) ∧ ∀ line ∈ ls.getLast?, line.isBlank = false

theorem not_isBlank_of_head?_dropWhile (ls : List Text) :
    ∀ line ∈ (ls.dropWhile isBlank).head?, line.isBlank = false := by
  intro line hl
  have h := List.head?_dropWhile_not isBlank ls
  rw [Option.mem_def.1 hl] at h
  exact h

theorem inkedEnds_dropBlankEnds (ls : List Text) : InkedEnds (dropBlankEnds ls) := by
  constructor
  · -- the lines are a start of those that are left when the front is dropped
    have hstart : dropBlankEnds ls <+: ls.dropWhile isBlank := by
      rw [← List.reverse_suffix, dropBlankEnds, List.reverse_reverse]
      exact List.dropWhile_suffix isBlank
    obtain ⟨rest, he⟩ := hstart
    intro line hl
    refine not_isBlank_of_head?_dropWhile ls line ?_
    rw [← he, List.head?_append, Option.mem_def.1 hl]
    rfl
  · rw [dropBlankEnds, List.getLast?_reverse]
    exact not_isBlank_of_head?_dropWhile _

theorem inkedEnds_lines {t : Node} (ht : t.kind = .root) (width : Nat) :
    InkedEnds (lines width t) := by
  cases t with
  | root children =>
    rw [lines]
    exact inkedEnds_dropBlankEnds _
  | sect name ratio children => contradiction
  | group children => contradiction
  | row text => contradiction

/-- Clean lines joined by line feeds are read back. -/
theorem splitBy_join_of_clean {ls : List Text} (hne : ls ≠ []) (h : ∀ line ∈ ls, line.Clean) :
    splitBy (· = '\n') (join ['\n'] ls) = ls := by
  refine splitBy_join (by decide) hne fun line hl c hc => decide_eq_false ?_
  rintro rfl
  have hspace : '\n' = ' ' := (h line hl).spaced '\n' hc (by decide)
  contradiction

/-- In the layout of a tree with a root on top, for any width and whatever the rows hold, no line
has white space other than spaces or a space at its end, and neither the first nor the last is
blank. The rendered text, if there is a line at all, splits at its line feeds into these lines. -/
theorem clean_lines_of_root {t : Node} (ht : t.kind = .root) :
    (∀ width, (∀ line ∈ lines width t, line.Clean) ∧ InkedEnds (lines width t)) ∧
      ∀ options : Options, options.format = .ascii → lines options.width t ≠ [] →
        splitBy (· = '\n') (t.render options) = lines options.width t := by
  refine ⟨fun width => ⟨clean_lines width t, inkedEnds_lines ht width⟩, ?_⟩
  intro options hf hne
  rw [Node.render, hf]
  exact splitBy_join_of_clean hne (clean_lines options.width t)

/-- Rows with line breaks, tabs and other white space, in a frame and side by side. -/
def sampleRough : Node :=
  .root [
    .row "\n\t".toList,
    .sect "box".toList (some ⟨1, 2⟩) [.row " one\r\ntwo\u2003".toList, .row "+\u2028three".toList],
    .group [.row "left\n".toList, .row "\u00a0".toList]]

theorem clean_lines_of_root_sampleRough :
    sampleRough.kind = .root ∧ lines 60 sampleRough ≠ [] ∧
      ((∀ line ∈ lines 18 sampleRough, line.Clean) ∧ InkedEnds (lines 18 sampleRough)) ∧
      splitBy (· = '\n') (sampleRough.render (.of .ascii 60)) = lines 60 sampleRough := by
  have hroot : sampleRough.kind = .root := rfl
  have hne : lines 60 sampleRough ≠ [] := by decide +kernel
  obtain ⟨hclean, hsplit⟩ := clean_lines_of_root hroot
  exact ⟨hroot, hne, hclean 18, hsplit (.of .ascii 60) rfl hne⟩

end Layout

end Wireframe
