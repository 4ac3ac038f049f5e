import Wireframe.Source.Line
import Wireframe.Source.Outline

/-!
Parsing. Two things nest the items of a source: indents and brackets. While the lines are read, the
sections and groups that are still open are kept as scopes, the innermost first. A line closes the
sections indented at least as far as itself, up to the innermost group; only a closing bracket
closes a group, and with it the sections opened in it. Each item gets as its depth the number of
scopes left open, and the outline so made is the tree.
-/

namespace Wireframe.Source

/-- The most sections and groups that may be open at once. -/
def maxDepth : Nat := 48

/-! ### Errors -/

inductive ParseError where
  /-- A closing bracket where no group is open. -/
  | unmatchedClose (line : Nat)
  /-- A node below a row. -/
  | invalidNesting (line : Nat)
  /-- A section or a group with `limit` others open already. -/
  | tooDeep (line limit : Nat)
  deriving DecidableEq

namespace ParseError

def line : ParseError → Nat
  | unmatchedClose line => line
  | invalidNesting line => line
  | tooDeep line _ => line

/-- What is wrong, without the line. -/
def reason : ParseError → Text
  | unmatchedClose _ => "encountered ']' without matching '['".toList
  | invalidNesting _ => "cannot nest under row content".toList
  | tooDeep _ limit => "nesting is deeper than ".toList ++ Text.ofNat limit ++ " levels".toList

def message (e : ParseError) : Text :=
  "line ".toList ++ Text.ofNat e.line ++ ": ".toList ++ e.reason

end ParseError

/-! ### Scopes -/

/-- An open node: a group, or a section with the indent of its header. -/
inductive Scope where
  | group
  | sect (indent : Nat)
  deriving DecidableEq

/-- Whether an item with this indent closes the scope. -/
def Scope.endsAt (indent : Nat) : Scope → Bool
  | group => false
  | sect own => indent ≤ own

/-- The scope that an item opens. -/
def scopeOf? (indent : Nat) : Item → Option Scope
  | .group => some .group
  | .sect _ _ => some (.sect indent)
  | .root => none
  | .row _ => none

/-- The scopes left by a closing bracket: those around the innermost group. -/
def closeGroup? : List Scope → Option (List Scope)
  | [] => none
  | .group :: scopes => some scopes
  | .sect _ :: scopes => closeGroup? scopes

/-- The scopes left open after a line, and the entry it makes. -/
def place (scopes : List Scope) (line : Line) : Except ParseError (List Scope × Option Entry) :=
  match line.form with
  | .close =>
    match closeGroup? scopes with
    | some outer => .ok (outer, none)
    | none => .error (.unmatchedClose line.number)
  | .item item =>
    let outer := scopes.dropWhile (Scope.endsAt line.indent)
    match scopeOf? line.indent item with
    | none => .ok (outer, some ⟨outer.length, item⟩)
    | some scope =>
      if maxDepth ≤ outer.length then .error (.tooDeep line.number maxDepth)
      else .ok (scope :: outer, some ⟨outer.length, item⟩)

/-- The outline of the lines, read with the given scopes open. -/
def outline (scopes : List Scope) : List Line → Except ParseError Outline
  | [] => .ok []
  | line :: lines =>
    match place scopes line with
    | .error e => .error e
    | .ok (scopes', entry) => (outline scopes' lines).map (entry.toList ++ ·)

/-- The tree of a source. -/
def parse (source : Text) : Except ParseError Node :=
  (outline [] (linesOf source)).map fun o => .root o.forest

end Wireframe.Source
