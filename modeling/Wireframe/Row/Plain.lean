import Wireframe.Row.Cell
import Wireframe.Row.Mark

/-!
The plain form of a row, the text that stands for it in a fixed-width layout. The marks of the row
are replaced one kind after another, each over the whole row, so that a later kind sees what the
earlier ones put in (`steps`). Table rows keep their pipes with a space on either side; in other
rows pipes become white space. In the end the words stand with single spaces between them.
-/

namespace Wireframe.Row

open Text

/-- A text between brackets. -/
def bracketed (t : Text) : Text := '[' :: t ++ [']']

/-- A text between brackets after an exclamation mark. -/
def emphasized (t : Text) : Text := bracketed ('!' :: ' ' :: t)

/-- The plain form of a field. -/
def plainField (name : Text) : Text :=
  if isInputType name then bracketed name else humanize name ++ ": [text]".toList

/-- A dash for the dash or star that leads a list item. -/
def plainBullet : Text → Text
  | [] => []
  | c :: t =>
    if c = '-' ∨ c = '*' then
      match afterBlanks? t with
      | some item => '-' :: ' ' :: item
      | none => c :: t
    else c :: t

/-- The plain form of a row that is a text area with a placeholder. -/
def plainPrompt (t : Text) : Text :=
  match ((after? area t).bind afterBlanks?).bind quotation.whole? with
  | some prompt => bracketed ("textarea: ".toList ++ prompt)
  | none => t

/-- The plain form of a row that is a text area alone. -/
def plainArea (t : Text) : Text := if t = area then bracketed "textarea".toList else t

/-- The replacements in their order. -/
def steps : List (Text → Text) :=
  [fun t => (afterHashes? t).getD t,
    plainBullet,
    fun t => (afterNumber? t).getD t,
    { badge with least := 0 }.replace fun label => '(' :: label ++ [')'],
    plainPrompt,
    plainArea,
    field.replace plainField,
    quotedPrimary.replace emphasized,
    quotedButton.replace bracketed,
    barePrimary.replace emphasized,
    bareButton.replace bracketed,
    icon.replace fun name => '<' :: name ++ ['>'],
    link.replace id]

/-- What stands for a pipe. -/
def plainPipe (inTable : Bool) : Text := if inTable then [' ', '|', ' '] else [' ']

/-- The plain form of a row. -/
def plain (t : Text) : Text :=
  let marked := steps.foldl (fun t step => step t) t.trim
  squeeze (marked.flatMap fun c => if c = '|' then plainPipe (isTableRow t) else [c])

end Wireframe.Row
