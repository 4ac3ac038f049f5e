import Wireframe.Page.Markup
import Wireframe.Row.Inline
import Wireframe.Row.Widget

/-!
The markup of widgets. Inline text is a run of texts, links and badges (`inlineMarkup`). A widget
is one element (`widgetMarkup`), and a cell the element of its widget, or nothing if it is blank
(`cellMarkup`). A field that names no input type is a text input, and without a label of its own it
is labelled with its name in words.
-/

namespace Wireframe.Page

open Row (Widget Choice Span)

/-! ### Inline text -/

def linkMarkup (label : Text) : Markup :=
  .element .a [valued "href" ['#'], valued "class" "wt-link".toList] [.text label]

def badgeMarkup (label : Text) : Markup := classed .span "wt-badge" [.text label]

def spanMarkup : Span → Markup
  | .link label => linkMarkup label
  | .badge label => badgeMarkup label

def inlineMarkup (t : Text) : List Markup :=
  (Row.spans t).map fun
    | .plain c => .text [c]
    | .span s => spanMarkup s

/-! ### Widgets -/

def choiceType : Choice → Text
  | .checkbox => "checkbox".toList
  | .radio => "radio".toList

def choiceMarkup (choice : Choice) (checked : Bool) (label : Text) : Markup :=
  let state : List Attribute := if checked then [⟨"checked".toList, none⟩] else []
  classed .label "wt-choice"
    (.void .input (valued "type" (choiceType choice) :: state) :: inlineMarkup label)

def buttonMarkup (primary : Bool) (label : Text) : Markup :=
  classed .button (if primary then "wt-btn primary" else "wt-btn") [.text label]

/-- A control with its label before it. -/
def labeledMarkup (label : Text) (control : Markup) : Markup :=
  classed .div "wt-input" [.element .label [] [.text label], control]

def textareaMarkup (label placeholder : Text) : Markup :=
  labeledMarkup label (.element .textarea [valued "placeholder" placeholder] [])

def inputMarkup (label type placeholder : Text) : Markup :=
  labeledMarkup label
    (.void .input [valued "type" type, valued "placeholder" placeholder])

/-- The input type of a field. -/
def fieldType (name : Text) : Text := if Row.isInputType name then name else "text".toList

/-- The label of a field that has none of its own. -/
def fieldLabel (name : Text) : Text := if Row.isInputType name then name else Row.humanize name

def widgetMarkup : Widget → Markup
  | .heading level t => .element (.heading level) [] (inlineMarkup t)
  | .rule => .void .hr []
  | .bullet t => .element .ul [] [.element .li [] (inlineMarkup t)]
  | .ordered t => .element .ol [] [.element .li [] (inlineMarkup t)]
  | .choice choice checked label => choiceMarkup choice checked label
  | .button primary label => buttonMarkup primary label
  | .textarea label placeholder => textareaMarkup (label.getD "text".toList) placeholder
  | .input label field placeholder =>
    inputMarkup (label.getD (fieldLabel field)) (fieldType field) placeholder
  | .icon name => classed .span "wt-icon" [.text name]
  | .badge label => badgeMarkup label
  | .link label => linkMarkup label
  | .paragraph t => .element .p [] (inlineMarkup t)

/-- The name of the rule for a trimmed cell, and the text of its markup. -/
def dispatch (t : Text) : Text × Text :=
  ((Widget.dispatch t).1, (widgetMarkup (Widget.dispatch t).2).print)

def cellMarkup (cell : Text) : List Markup := ((Widget.ofCell? cell).map widgetMarkup).toList

end Wireframe.Page
