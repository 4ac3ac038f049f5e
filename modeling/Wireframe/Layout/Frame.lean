import Wireframe.Layout.Columns
import Wireframe.Width.Wrap

/-!
Frames. A section with a ratio is drawn in a frame of plus signs, dashes and pipes, unless all it
holds is a group of such sections, which draw frames of their own. A line that starts with a plus
sign or a pipe is taken for part of a frame within and is cut to the interior; any other line is
wrapped to it.
-/

namespace Wireframe.Layout

/-- Whether all children are sections with a ratio, and there are any. -/
def allRatioed (children : List Node) : Bool :=
  ! children.isEmpty && children.all (·.ratio.isSome)

/-- Whether a section is drawn in a frame. -/
def isFramed (ratio : Option Ratio) (children : List Node) : Bool :=
  match children with
  | [.group columns] => ratio.isSome && ! allRatioed columns
  | _ => ratio.isSome

/-- The columns inside a frame of the given width. -/
def interior (width : Nat) : Nat := max width columnFloor - 2

/-- The first and last line of a frame. -/
def border (width : Nat) : Text := '+' :: List.replicate (interior width) '-' ++ ['+']

/-- The lines that a line takes inside a frame. -/
def fitLine (room : Nat) (line : Text) : List Text :=
  if line.head? = some '+' ∨ line.head? = some '|' then [Text.cut room line]
  else Text.wrap room line

/-- A line between the sides of a frame. -/
def side (room : Nat) (line : Text) : Text := '|' :: Text.pad room line ++ ['|']

/-- The lines in a frame of the given width. -/
def frame (width : Nat) (lines : List Text) : List Text :=
  let room := interior width
  border width :: (lines.flatMap (fitLine room)).map (side room) ++ [border width]

end Wireframe.Layout
