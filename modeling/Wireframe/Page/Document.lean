import Wireframe.Page.Style
import Wireframe.Page.Tree

/-!
The page of a tree: a complete document with the stylesheet in its head and the tree's markup as
its body.
-/

namespace Wireframe.Page

/-- The text of a document before its body. -/
def documentHead : Text :=
  "<!doctype html><html><head><meta charset=\"utf-8\" /><style>".toList ++ stylesheet ++
    "</style></head><body>".toList

/-- The text of a document after its body. -/
def documentTail : Text := "</body></html>".toList

/-- The document of a tree. -/
def document (t : Node) : Text := documentHead ++ (nodeMarkup t).print ++ documentTail

end Wireframe.Page
