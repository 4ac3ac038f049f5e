import Wireframe.Text.Basic

/-!
Cells of a row. A row that starts and ends with a pipe is a table row, and every pipe inside it
parts two cells (`tableCells`). In any other row pipes part widgets that stand side by side, except
pipes between double quotes, and empty cells are dropped (`widgetCells`). A table row whose cells
are all runs of dashes, which colons may flank, is a separator.
-/

namespace Wireframe.Row

open Text

/-! ### Table rows -/

def isTableRow (t : Text) : Bool := t.trim.head? = some '|' && t.trim.getLast? = some '|'

/-- The cells between the outer pipes, without white space around them. -/
def tableCells (t : Text) : List Text :=
  (splitBy (· = '|') (dropLast '|' (dropFirst '|' t.trim))).map trim

/-- At least three dashes with or without a colon at either end. -/
def isDashes (cell : Text) : Bool :=
  let dashes := dropLast ':' (dropFirst ':' cell)
  decide (3 ≤ dashes.length) && dashes.all (· = '-')

def isSeparator (cells : List Text) : Bool := cells.all isDashes

/-! ### Other rows -/

/-- The pieces between the pipes that stand outside quotes. -/
def splitUnquoted : (quoted : Bool) → Text → List Text
  | _, [] => [[]]
  | quoted, c :: t =>
    if c = '|' ∧ quoted = false then [] :: splitUnquoted false t
    else growFirst c (splitUnquoted (if c = '"' then ! quoted else quoted) t)

/-- The cells of a row that is no table row. -/
def widgetCells (t : Text) : List Text :=
  ((splitUnquoted false t).map trim).filter (! ·.isEmpty)

end Wireframe.Row
