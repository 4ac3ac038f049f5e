import Wireframe.Source.Header

/-!
The lines of a source. A line has its number in the source, an indent, which counts pairs of leading
spaces, and a text without white space at either end. Blank lines hold nothing and are passed over.
A line whose text is a closing bracket ends a group; any other line is an item: an opening bracket a
group, a text that starts with an equals sign a section, all else a row.
-/

namespace Wireframe.Source

/-- A line that is not blank. -/
structure Line where
  number : Nat
  indent : Nat
  text : Text
  deriving DecidableEq

/-- The pairs of spaces at the start of a line. -/
def indentOf (raw : Text) : Nat := (raw.takeWhile (· = ' ')).length / 2

/-- Reads a line, unless it is blank. -/
def Line.read? (number : Nat) (raw : Text) : Option Line :=
  if raw.isBlank then none
  else some ⟨number, indentOf raw, raw.trim⟩

/-- The lines of a source that are not blank, numbered from one with the blank ones. -/
def linesOf (source : Text) : List Line :=
  ((Text.lines source).zipIdx 1).filterMap fun (raw, number) => Line.read? number raw

/-- What a line does: it ends the innermost group, or it is an item. -/
inductive Form where
  | close
  | item (item : Item)
  deriving DecidableEq

/-- What a line with this text does. -/
def Form.read (text : Text) : Form :=
  if text = [']'] then .close
  else if text = ['['] then .item .group
  else if text.head? = some '=' then
    let header := readHeader text
    .item (.sect header.1 header.2)
  else .item (.row text)

def Line.form (line : Line) : Form := Form.read line.text

end Wireframe.Source
