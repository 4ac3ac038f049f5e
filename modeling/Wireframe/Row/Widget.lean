import Wireframe.Row.Mark

/-!
Widgets. A cell of a row that is not blank is one widget. The rules for the kinds of widgets are
tried in a fixed order, and the first that accepts the cell decides (`Widget.dispatch`); a cell that
none accepts is a paragraph. The payloads are kept as written, so what a cell says can be read off
its widget.
-/

namespace Wireframe.Row

open Text

inductive Choice where
  | checkbox
  | radio
  deriving DecidableEq

inductive Widget where
  /-- A heading of level `level + 1`. -/
  | heading (level : Fin 6) (text : Text)
  | rule
  | bullet (text : Text)
  | ordered (text : Text)
  | choice (choice : Choice) (checked : Bool) (label : Text)
  | button (primary : Bool) (label : Text)
  | textarea (label : Option Text) (placeholder : Text)
  | input (label : Option Text) (field : Text) (placeholder : Text)
  | icon (name : Text)
  | badge (label : Text)
  | link (label : Text)
  | paragraph (text : Text)
  deriving DecidableEq

namespace Widget

/-! ### Parts of widgets -/

/-- A text that is not empty and lies on one line. -/
def oneLine? (t : Text) : Option Text := if t ≠ [] ∧ '\n' ∉ t then some t else none

/-- The end of an input or a text area: white space, and a placeholder in quotes or nothing. -/
def placeholder? (t : Text) : Option Text :=
  if t.trimStart = [] then some [] else { quotation with least := 0 }.whole? t.trimStart

/-- A label, the colon after it dropped, and what follows white space. -/
def labeled? (t : Text) : Option (Text × Text) :=
  let label := t.takeWhile (· ≠ ':')
  if label = [] then none
  else (after? [':'] (t.dropWhile (· ≠ ':'))).map fun rest => (trim label, rest.trimStart)

/-- The state of a choice, a character or nothing between an opening and a closing one. -/
def checked? (opening closing : Char) : Text → Option (Bool × Text)
  | a :: b :: c :: t =>
    if a = opening then
      if b = closing then some (false, c :: t)
      else if c = closing then
        if b = 'x' ∨ b = 'X' then some (true, t) else if b = ' ' then some (false, t) else none
      else none
    else none
  | [a, b] => if a = opening ∧ b = closing then some (false, []) else none
  | _ => none

/-- The label of a choice, which may be empty. -/
def choice? (choice : Choice) (opening closing : Char) (t : Text) : Option Widget :=
  (checked? opening closing t).bind fun (checked, rest) =>
    if '\n' ∈ rest.trimStart then none else some (.choice choice checked rest.trimStart)

/-- A button's label in quotes, or else without. -/
def button? (primary : Bool) (quoted bare : Mark) (t : Text) : Option Widget :=
  ((quoted.whole? t).or (bare.whole? t)).map (.button primary)

/-! ### Readers -/

def heading? (t : Text) : Option Widget :=
  let level := (t.takeWhile (· = '#')).length
  if h : 0 < level ∧ level ≤ 6 then
    ((afterHashes? t).bind oneLine?).map (.heading ⟨level - 1, by omega⟩)
  else none

def rule? (t : Text) : Option Widget := if t = ['-', '-', '-'] then some .rule else none

def bullet? (t : Text) : Option Widget :=
  (((after? ['-'] t).bind afterBlanks?).bind oneLine?).map .bullet

def ordered? (t : Text) : Option Widget := ((afterNumber? t).bind oneLine?).map .ordered

def area? (t : Text) : Option Text := (after? area t).bind placeholder?

def labeledTextarea? (t : Text) : Option Widget :=
  (labeled? t).bind fun (label, rest) => (area? rest).map (.textarea (some label))

def textarea? (t : Text) : Option Widget := (area? t).map (.textarea none)

def field? (t : Text) : Option (Text × Text) :=
  (field.read? t).bind fun (name, rest) => (placeholder? rest).map (name, ·)

def labeledInput? (t : Text) : Option Widget :=
  (labeled? t).bind fun (label, rest) =>
    (field? rest).map fun (name, placeholder) => .input (some label) name placeholder

def input? (t : Text) : Option Widget :=
  (field? t).map fun (name, placeholder) => .input none name placeholder

/-- The rules in the order in which they are tried, each with its name and its reader. -/
def rules : List (Text × (Text → Option Widget)) :=
  [("heading".toList, heading?), ("rule".toList, rule?), ("bullet".toList, bullet?),
    ("ordered".toList, ordered?),
    ("checkbox".toList, choice? .checkbox '[' ']'), ("radio".toList, choice? .radio '(' ')'),
    ("primary-button".toList, button? true quotedPrimary barePrimary),
    ("button".toList, button? false quotedButton bareButton),
    ("labeled-textarea".toList, labeledTextarea?), ("textarea".toList, textarea?),
    ("labeled-input".toList, labeledInput?), ("input".toList, input?),
    ("icon".toList, fun t => (Row.icon.whole? t).map .icon),
    ("badge".toList, fun t => (Row.badge.whole? t).map .badge),
    ("link".toList, fun t => (Row.link.whole? t).map .link)]

/-- The name of the rule that accepts a trimmed cell, and the widget that the cell is. -/
def dispatch (t : Text) : Text × Widget :=
  (rules.findSome? fun rule => (rule.2 t).map (rule.1, ·)).getD ("paragraph".toList, .paragraph t)

/-- The widget that a trimmed cell is. -/
def read (t : Text) : Widget := (dispatch t).2

/-- The widget of a cell, unless it is blank. -/
def ofCell? (t : Text) : Option Widget := if t.isBlank then none else some (read t.trim)

end Widget

end Wireframe.Row
