import Wireframe.Text.Basic

/-!
Markup as a tree. Elements are texts, elements with children and void elements, over a fixed set of
tags, and a tree becomes text in one place (`print`), where texts and attribute values are escaped.
So what stands in a text or a value can neither open nor close an element. The main statement:
escaped text holds none of the characters that markup is made of (`not_mem_escape`).
-/

namespace Wireframe.Page

/-! ### Escaping -/

/-- What is written for a character in a text or a value. -/
def escapeChar : Char → Text
  | '&' => "&amp;".toList
  | '<' => "&lt;".toList
  | '>' => "&gt;".toList
  | '"' => "&quot;".toList
  | '\'' => "&#39;".toList
  | c => [c]

def escape (t : Text) : Text := t.flatMap escapeChar

/-- The characters that markup is made of. -/
def special : List Char := ['<', '>', '"', '\'']

theorem escapeChar_of_notMem {c : Char} (h : c ∉ '&' :: special) : escapeChar c = [c] := by
  simp only [special, List.mem_cons, List.not_mem_nil, or_false, not_or] at h
  unfold escapeChar
  split <;> simp_all

theorem not_mem_escapeChar (c : Char) {s : Char} (hs : s ∈ special) : s ∉ escapeChar c := by
  by_cases hc : c ∈ '&' :: special
  · simp only [special, List.mem_cons, List.not_mem_nil, or_false] at hc hs
    rcases hc with rfl | rfl | rfl | rfl | rfl <;> rcases hs with rfl | rfl | rfl | rfl <;> decide
  · rw [escapeChar_of_notMem hc, List.mem_singleton]
    rintro rfl
    exact hc (List.mem_cons_of_mem _ hs)

theorem not_mem_escape (t : Text) {s : Char} (hs : s ∈ special) : s ∉ escape t := by
  simp only [escape, List.mem_flatMap, not_exists, not_and]
  exact fun c _ => not_mem_escapeChar c hs

/-! ### Elements -/

/-- The tags of elements with children. -/
inductive Tag where
  | div
  | header
  | footer
  | nav
  | main
  | sect
  | aside
  | article
  | table
  | thead
  | tbody
  | tr
  | th
  | td
  /-- A heading of level `level + 1`. -/
  | heading (level : Fin 6)
  | ul
  | ol
  | li
  | label
  | button
  | textarea
  | p
  | a
  | span
  deriving DecidableEq

def Tag.name : Tag → Text
  | div => "div".toList
  | header => "header".toList
  | footer => "footer".toList
  | nav => "nav".toList
  | main => "main".toList
  | sect => "section".toList
  | aside => "aside".toList
  | article => "article".toList
  | table => "table".toList
  | thead => "thead".toList
  | tbody => "tbody".toList
  | tr => "tr".toList
  | th => "th".toList
  | td => "td".toList
  | heading level => ['h', Nat.digitChar (level + 1)]
  | ul => "ul".toList
  | ol => "ol".toList
  | li => "li".toList
  | label => "label".toList
  | button => "button".toList
  | textarea => "textarea".toList
  | p => "p".toList
  | a => "a".toList
  | span => "span".toList

/-- The tags of void elements. -/
inductive VoidTag where
  | hr
  | input
  deriving DecidableEq

def VoidTag.name : VoidTag → Text
  | hr => "hr".toList
  | input => "input".toList

/-- An attribute with a value, or one that says all by its name. -/
structure Attribute where
  name : Text
  value : Option Text
  deriving DecidableEq

inductive Markup where
  | text (t : Text)
  | element (tag : Tag) (attributes : List Attribute) (children : List Markup)
  | void (tag : VoidTag) (attributes : List Attribute)

/-- An attribute with a value. -/
def valued (name : String) (value : Text) : Attribute := ⟨name.toList, some value⟩

/-- An element with a class. -/
def classed (tag : Tag) (name : String) (children : List Markup) : Markup :=
  .element tag [valued "class" name.toList] children

/-! ### Printing -/

def Attribute.print (a : Attribute) : Text :=
  ' ' :: a.name ++
    match a.value with
    | some value => ['=', '"'] ++ escape value ++ ['"']
    | none => []

def printAttributes (as : List Attribute) : Text := as.flatMap Attribute.print

namespace Markup

mutual

/-- The text of a tree of markup. -/
def print : Markup → Text
  | text t => escape t
  | element tag attributes children =>
    '<' :: tag.name ++ printAttributes attributes ++ ['>'] ++ printAll children ++
      ['<', '/'] ++ tag.name ++ ['>']
  | void tag attributes => '<' :: tag.name ++ printAttributes attributes ++ [' ', '/', '>']

def printAll : List Markup → Text
  | [] => []
  | m :: ms => print m ++ printAll ms

end

end Markup

end Wireframe.Page
