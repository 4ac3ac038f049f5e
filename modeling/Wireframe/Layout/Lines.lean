import Wireframe.Layout.Frame
import Wireframe.Row.Plain

/-!
The fixed-width layout of a tree. Every node is laid out as lines for a width: a row is its plain
form, wrapped; a section stacks its children with an empty line between them and may be framed; a
group sets its children side by side; the root stacks its children as they are. Widths are handed
down and lines handed up, and blank lines at either end are dropped (`dropBlankEnds`).
-/

namespace Wireframe.Layout

/-- The lines without the blank ones at either end. -/
def dropBlankEnds (lines : List Text) : List Text :=
  ((lines.dropWhile Text.isBlank).reverse.dropWhile Text.isBlank).reverse

/-- The line that stands for a section with nothing to show. -/
def emptyLine : Text := "(empty)".toList

/-- The lines of a section's children, an empty line between them. -/
def stackLines (blocks : List (List Text)) : List Text :=
  let lines := dropBlankEnds ([[]].intercalate blocks)
  if lines.isEmpty then [emptyLine] else lines

/-- The lines of a child in a column, which are never none. -/
def columnLines (block : List Text) : List Text :=
  let lines := dropBlankEnds block
  if lines.isEmpty then [[]] else lines

/-- The width for a section's children. -/
def innerWidth (framed : Bool) (width : Nat) : Nat :=
  max (if framed then width - 2 else width) columnFloor

mutual

/-- The lines of a node laid out for a width. -/
def lines (width : Nat) : Node → List Text
  | .root children => dropBlankEnds (blocks width children).flatten
  | .sect _ ratio children =>
    let framed := isFramed ratio children
    let inner := stackLines (blocks (innerWidth framed width) children)
    if framed then frame width inner else inner
  | .group [] => [[]]
  | .group [child] => dropBlankEnds (lines width child)
  | .group children =>
    let widths := columnWidths (children.map Node.ratio) width
    joinColumns (columns widths children) widths
  | .row text => Text.wrap (max width columnFloor) (Row.plain text)

/-- The lines of each node, all laid out for one width. -/
def blocks (width : Nat) : List Node → List (List Text)
  | [] => []
  | t :: ts => lines width t :: blocks width ts

/-- The lines of each node in a column of its own. -/
def columns : (widths : List Nat) → List Node → List (List Text)
  | w :: ws, t :: ts => columnLines (lines w t) :: columns ws ts
  | _, _ => []

end

end Wireframe.Layout
