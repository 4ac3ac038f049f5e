import Wireframe.Text.Mark
import Wireframe.Text.Digit

/-!
The marks of the row language: badges, links, fields, buttons and icons, and the leads of headings
and numbered items. Both the plain form of a row and its widgets are read with these. A field named
for an input type stands for itself; any other name is shown with spaces for underscores.
-/

namespace Wireframe.Row

open Text

/-! ### Marks -/

def isFieldChar (c : Char) : Bool := c.isAlphanum || c = '_'

def isIconChar (c : Char) : Bool := isFieldChar c || c = '-'

/-- Characters of a button's label written without quotes. -/
def isBareChar (c : Char) : Bool := ! blank c && c ≠ '|'

def badge : Mark where
  opening := "`(".toList
  body := (· ≠ ')')
  closing := ")`".toList

def link : Mark where
  opening := ['_']
  body := (· ≠ '_')
  closing := ['_']

def field : Mark where
  opening := ['^']
  body := isFieldChar

def icon : Mark where
  opening := ['i', ':']
  body := isIconChar

def quotedPrimary : Mark where
  opening := ['!', '!', '"']
  body := (· ≠ '"')
  closing := ['"']

def quotedButton : Mark where
  opening := ['!', '"']
  body := (· ≠ '"')
  closing := ['"']

def barePrimary : Mark where
  opening := ['!', '!']
  body := isBareChar

def bareButton : Mark where
  opening := ['!']
  body := isBareChar

def quotation : Mark where
  opening := ['"']
  body := (· ≠ '"')
  closing := ['"']

/-! ### Leads -/

/-- The opening of a text area. -/
def area : Text := ['^', '^']

/-- What follows number signs and white space. -/
def afterHashes? (t : Text) : Option Text := (afterRun? (· = '#') t).bind afterBlanks?

/-- What follows a number, a full stop and white space. -/
def afterNumber? (t : Text) : Option Text :=
  ((afterRun? digit t).bind (after? ['.'])).bind afterBlanks?

/-! ### Fields -/

/-- The input types that a field may name. -/
def inputTypes : List Text :=
  ["text", "password", "date", "time", "phone", "email", "number", "url", "search", "tel", "color",
    "file", "range"].map String.toList

def isInputType (name : Text) : Bool := inputTypes.contains name

/-- The label of a field: its name with spaces for underscores. -/
def humanize (name : Text) : Text := replaceChar '_' ' ' name

end Wireframe.Row
