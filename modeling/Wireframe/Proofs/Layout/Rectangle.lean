import Wireframe.Proofs.Layout.Room

/-! Frames as rectangles. All lines of a frame are of one width, whatever the lines in it are like:
what is wider than the inside is cut or wrapped and what is narrower is filled up. Between two equal
borders each line in the frame takes one line or more between the sides, in its place, and
shows its ink from the start, and only a line that begins like a border may show less than all of
it (`Contributes`, `rectangle_frame`). -/

namespace Wireframe

namespace Layout

open Text Width

/-! ### Lines in a frame -/

/-- What a line contributes to a frame: some lines between its sides, which show the ink of the line
from its start, and all of it unless the line begins like a border. -/
def Contributes (line : Text) (block : List Text) : Prop :=
  ∃ parts : List Text, parts ≠ [] ∧ block = parts.map (fun part => '|' :: part ++ ['|']) ∧
    ink parts.flatten <+: ink line ∧
    (line.head? ≠ some '+' → line.head? ≠ some '|' → ink parts.flatten = ink line)

theorem fitLine_ne_nil (room : Nat) (line : Text) : fitLine room line ≠ [] := by
  rw [fitLine]
  split
  · exact List.cons_ne_nil _ _
  · exact wrap_ne_nil room line

/-- The lines that a line takes in a frame show its ink from the start. -/
theorem ink_fitLine {room : Nat} (hr : 2 ≤ room) (line : Text) :
    ink (fitLine room line).flatten <+: ink line ∧
      (line.head? ≠ some '+' → line.head? ≠ some '|' →
        ink (fitLine room line).flatten = ink line) := by
  rw [fitLine]
  split
  · next hborder =>
    rw [List.flatten_singleton]
    exact ⟨(isPrefix_cut room line).filter _,
      fun hplus hpipe => absurd hborder (not_or.2 ⟨hplus, hpipe⟩)⟩
  · have hink := ink_wrap hr line
    exact ⟨hink ▸ List.prefix_refl _, fun _ _ => hink⟩

theorem contributes_fitLine {room : Nat} (hr : 2 ≤ room) {line : Text} (hs : line.Simple) :
    Contributes line ((fitLine room line).map (side room)) := by
  have hpad := ink_flatten_map_pad fun part hp => (tight_fitLine hr hs part hp).2
  refine ⟨(fitLine room line).map (pad room), List.map_eq_nil_iff.not.2 (fitLine_ne_nil room line),
    ?_, ?_⟩
  · rw [List.map_map]
    rfl
  · rw [hpad]
    exact ink_fitLine hr line

/-! ### The frame -/

/-- A frame of simple lines is a rectangle with a border on all sides, never narrower than a column,
and each line in it takes one line or more of it, in order. -/
theorem rectangle_frame (width : Nat) {ls : List Text} (hs : ∀ line ∈ ls, line.Simple) :
    ∃ blocks : List (List Text),
      (let border := '+' :: List.replicate (max width 18 - 2) '-' ++ ['+']
       frame width ls = border :: blocks.flatten ++ [border]) ∧
      (∀ line ∈ frame width ls, line.width = max width 18) ∧
      (∀ line ∈ blocks.flatten, line.head? = some '|' ∧ line.getLast? = some '|') ∧
      List.Forall₂ Contributes ls blocks := by
  have hr := two_le_interior width
  refine ⟨ls.map fun line => (fitLine (interior width) line).map (side (interior width)), ?_,
    fun line hl => ?_, fun line hl => ?_, ?_⟩
  · rw [← List.flatMap_def, ← List.map_flatMap]
    rfl
  · obtain ⟨hsimple, hsum⟩ := charSum_of_mem_frame hs hl
    rw [width_of_simple hsimple, hsum, columnFloor]
  · rw [← List.flatMap_def, ← List.map_flatMap] at hl
    obtain ⟨part, -, rfl⟩ := List.mem_map.1 hl
    exact ⟨rfl, List.getLast?_concat⟩
  · exact List.forall₂_map_right_iff.2 <| List.forall₂_same.2 fun line hl =>
      contributes_fitLine hr (hs line hl)

/-- Lines that are cut, broken, filled up or empty in the inside of a narrow frame. -/
def sampleLines : List Text :=
  ["+--------------------------+".toList, "日本語日本語日本語 supercalifragilistic".toList,
    "| ".toList, [], "fits".toList]

theorem rectangle_frame_sampleLines :
    (∀ line ∈ sampleLines, line.Simple) ∧ ∀ line ∈ frame 5 sampleLines, line.width = 18 := by
  have hsimple : ∀ line ∈ sampleLines, line.Simple := by decide
  obtain ⟨-, -, hwidth, -⟩ := rectangle_frame 5 hsimple
  exact ⟨hsimple, hwidth⟩

end Layout

end Wireframe
