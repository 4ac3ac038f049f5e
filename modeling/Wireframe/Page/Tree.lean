import Wireframe.Node
import Wireframe.Page.Widget
import Wireframe.Row.Cell
import Wireframe.Text.Digit

/-!
The markup of a tree. The root and the groups are divisions, and a section is the element that its
name names, if it names one, with its ratio as its share of the space. A row is a line of widgets,
except that neighbouring table rows of one parent make up one table: its first row is the head, and
a separator in second place is left out (`tableMarkup`, `mergeTables`).
-/

namespace Wireframe.Page

open Row

/-! ### Rows -/

/-- The line of widgets of a row that is no table row. -/
def rowMarkup (t : Text) : Markup :=
  let row := t.trim
  if '|' ∈ row ∧ isTableRow row = false then
    classed .div "wt-row" ((widgetCells row).map fun cell =>
      classed .div "wt-cell" (cellMarkup cell))
  else classed .div "wt-row" [classed .div "wt-cell wt-grow" (cellMarkup row)]

/-! ### Tables -/

/-- The rows of a table's body, given the rows after the first. -/
def bodyRows : List (List Text) → List (List Text)
  | [] => []
  | second :: more => if isSeparator second then more else second :: more

def tableRowMarkup (cell : Tag) (cells : List Text) : Markup :=
  .element .tr [] (cells.map fun t => .element cell [] (inlineMarkup t))

/-- The table of some rows, given as their cells. -/
def tableMarkup (head : List Text) (more : List (List Text)) : Markup :=
  classed .table "wt-table"
    [.element .thead [] [tableRowMarkup .th head],
      .element .tbody [] ((bodyRows more).map (tableRowMarkup .td))]

/-- A child of a node: the cells of a table row, or markup of its own. -/
inductive Part where
  | tableRow (cells : List Text)
  | markup (m : Markup)

/-- The table of the rows before some markup, if there are any. -/
def closeTable : (rows : List (List Text)) → List Markup → List Markup
  | [], ms => ms
  | head :: more, ms => tableMarkup head more :: ms

/-- The markup of the parts that follow table rows not yet closed off. -/
def mergeAfter (rows : List (List Text)) : List Part → List Markup
  | [] => closeTable rows []
  | .tableRow cells :: parts => mergeAfter (rows ++ [cells]) parts
  | .markup m :: parts => closeTable rows (m :: mergeAfter [] parts)

/-- The markup of the children of a node, each run of table rows made one table. -/
def mergeTables (parts : List Part) : List Markup := mergeAfter [] parts

/-! ### Sections -/

/-- The tags that a section's name may name. -/
def sectionTags : List Tag := [.header, .footer, .nav, .main, .sect, .aside, .article]

/-- The tag of a section: the one its name names, upper and lower case taken as one. -/
def sectionTag (name : Text) : Tag :=
  (sectionTags.find? fun tag => tag.name = name.map Char.toLower).getD .sect

def sectionAttributes (name : Text) : Option Ratio → List Attribute
  | none => [valued "class" "section".toList, valued "data-wt" name]
  | some r =>
    [valued "class" "section frame".toList,
      valued "style" ("flex:".toList ++ Text.ofNat r.n.toNat ++ " 1 0%".toList),
      valued "data-wt" name]

/-! ### Trees -/

/-- The cells of a node that is a table row. -/
def tableCells? : Node → Option (List Text)
  | .row t => if isTableRow t then some (tableCells t) else none
  | _ => none

mutual

def nodeMarkup : Node → Markup
  | .root children => classed .div "root" (mergeTables (parts children))
  | .sect name ratio children =>
    .element (sectionTag name) (sectionAttributes name ratio) (mergeTables (parts children))
  | .group children => classed .div "group" (mergeTables (parts children))
  | .row t => rowMarkup t

/-- The children of a node as parts of its markup. -/
def parts : List Node → List Part
  | [] => []
  | t :: ts =>
    (match tableCells? t with
      | some cells => .tableRow cells
      | none => .markup (nodeMarkup t)) :: parts ts

end

end Wireframe.Page
