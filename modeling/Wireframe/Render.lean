import Wireframe.Dump
import Wireframe.Layout.Lines
import Wireframe.Page.Document
import Wireframe.Source.Parse

/-!
Rendering. A tree is shown in one of three formats: as lines of text, as a page of markup, or as the
dump of the tree. A format is known by its name, which is read exactly as it is written
(`read_eq_ok_iff`). The options carry a width that is never below `minWidth`, whatever width was
asked for.
-/

namespace Wireframe

/-! ### Formats -/

inductive Format where
  | ascii
  | html
  | json
  deriving DecidableEq

/-- No format has this name. -/
structure InvalidFormat where
  name : Text
  deriving DecidableEq

def InvalidFormat.message (e : InvalidFormat) : Text := "invalid variant: ".toList ++ e.name

namespace Format

def all : List Format := [.ascii, .html, .json]

def name : Format → Text
  | ascii => "ascii".toList
  | html => "html".toList
  | json => "json".toList

/-- What follows the stem and the dot in the name of a file in this format. -/
def extension : Format → Text
  | ascii => "txt".toList
  | html => "html".toList
  | json => "ast.json".toList

/-- The format of a name. -/
def read (t : Text) : Except InvalidFormat Format :=
  match all.find? (·.name = t) with
  | some format => .ok format
  | none => .error ⟨t⟩

theorem mem_all (format : Format) : format ∈ all := by
  cases format <;> simp [all]

theorem name_injective {f g : Format} (h : f.name = g.name) : f = g := by
  revert h
  cases f <;> cases g <;> decide

theorem read_eq_ok_iff {t : Text} {format : Format} : read t = .ok format ↔ format.name = t := by
  cases h : all.find? (·.name = t) with
  | none =>
    have h' : format.name ≠ t := by simpa using List.find?_eq_none.1 h format (mem_all format)
    simp [read, h, h']
  | some g =>
    have h' : g.name = t := by simpa using List.find?_some h
    simp only [read, h, Except.ok.injEq]
    exact ⟨fun e => e ▸ h', fun e => name_injective (h'.trans e.symm)⟩

end Format

/-! ### Options -/

/-- The narrowest width of a layout. -/
def minWidth : Nat := 60

/-- The width of a layout for which none is given. -/
def defaultWidth : Nat := 120

structure Options where
  format : Format
  width : Nat
  minWidth_le : minWidth ≤ width

/-- The options for a format and a width, which is raised to the narrowest one where it is less. -/
def Options.of (format : Format) (width : Nat) : Options :=
  ⟨format, max width minWidth, Nat.le_max_right ..⟩

/-! ### Renderings -/

namespace Node

/-- The tree in the format of the options. -/
def render (options : Options) (t : Node) : Text :=
  match options.format with
  | .ascii => Text.join ['\n'] (Layout.lines options.width t)
  | .html => Page.document t
  | .json => Dump.print t

end Node

namespace Source

/-- The tree of a source in the format of the options. -/
def render (options : Options) (source : Text) : Except ParseError Text :=
  (parse source).map (Node.render options)

end Source

end Wireframe
