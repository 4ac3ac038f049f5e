import Wireframe.Row.Mark

/-!
Inline text: a text in which links and badges stand between plain characters. The spans are found
from left to right without overlap, and the text is trimmed first.
-/

namespace Wireframe.Row

inductive Span where
  | link (label : Text)
  | badge (label : Text)
  deriving DecidableEq

/-- The link or badge at the start of a text, and what follows it. -/
def Span.read? (t : Text) : Option (Span × Text) :=
  match Row.link.read? t, Row.badge.read? t with
  | some (label, rest), _ => some (.link label, rest)
  | none, some (label, rest) => some (.badge label, rest)
  | none, none => none

/-- The characters and spans of an inline text. -/
def spans (t : Text) : List (Piece Span) := scan Span.read? t.trim

end Wireframe.Row
