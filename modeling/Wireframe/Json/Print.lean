import Wireframe.Json.Basic
import Wireframe.Json.Quoted

/-!
Printing JSON. Every item and every member of a container that is not empty stands on a line of its
own, indented by two spaces for each container around it.
-/

namespace Wireframe.Json

/-- A line break and the indent of a level. -/
def newLine (level : Nat) : Text := '\n' :: List.replicate (2 * level) ' '

/-- A container of the given lines, which stand one level deeper than its brackets. -/
def enclose (opening closing : Char) (level : Nat) (lines : List Text) : Text :=
  if lines.isEmpty then [opening, closing]
  else
    opening :: newLine (level + 1) ++ Text.join (',' :: newLine (level + 1)) lines ++
      newLine level ++ [closing]

mutual

/-- The text of a value at a level. -/
def printAt (level : Nat) : Json → Text
  | null => "null".toList
  | bool b => if b then "true".toList else "false".toList
  | num n => n.print
  | str t => quote t
  | arr items => enclose '[' ']' level (printItems (level + 1) items)
  | obj members => enclose '{' '}' level (printMembers (level + 1) members)

def printItems (level : Nat) : List Json → List Text
  | [] => []
  | j :: js => printAt level j :: printItems level js

def printMembers (level : Nat) : List (Text × Json) → List Text
  | [] => []
  | (k, j) :: js => (quote k ++ [':', ' '] ++ printAt level j) :: printMembers level js

end

/-- The text of a value. -/
def print (j : Json) : Text := printAt 0 j

end Wireframe.Json
