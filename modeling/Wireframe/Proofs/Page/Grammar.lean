import Wireframe.Page.Markup

/-! The grammar of markup as text. It speaks of characters alone and knows nothing of the
tree that was printed: text holds no special character but in an entity (`Escaped`), a
tag holds attributes with their values between double quotes (`AttributeRun`), and start
tags and end tags nest (`WellFormed`). A tree of markup prints as this grammar asks if
its attributes have proper names (`wellFormed_print`), whatever its texts and values
are. -/

namespace Wireframe.Page

/-! ### Escaped text -/

/-- What stands for the special characters. -/
def entities : List Text :=
  ["&amp;", "&lt;", "&gt;", "&quot;", "&#39;"].map String.toList

/-- Text without a raw special character, where an ampersand only starts an entity. -/
inductive Escaped : Text → Prop
  | nil : Escaped []
  | char {c : Char} {t : Text} (hc : c ∉ '&' :: special) (ht : Escaped t) : Escaped (c :: t)
  | entity {e t : Text} (he : e ∈ entities) (ht : Escaped t) : Escaped (e ++ t)

theorem Escaped.append {s t : Text} (hs : Escaped s) (ht : Escaped t) : Escaped (s ++ t) := by
  induction hs with
  | nil => exact ht
  | char hc _ ih => exact .char hc ih
  | entity he _ ih =>
    rw [List.append_assoc]
    exact .entity he ih

theorem escapeChar_mem_entities {c : Char} (h : c ∈ '&' :: special) : escapeChar c ∈ entities := by
  simp only [special, List.mem_cons, List.not_mem_nil, or_false] at h
  rcases h with rfl | rfl | rfl | rfl | rfl <;> decide

theorem escaped_escapeChar (c : Char) : Escaped (escapeChar c) := by
  by_cases hc : c ∈ '&' :: special
  · rw [← List.append_nil (escapeChar c)]
    exact .entity (escapeChar_mem_entities hc) .nil
  · rw [escapeChar_of_notMem hc]
    exact .char hc .nil

theorem escaped_escape (t : Text) : Escaped (escape t) := by
  induction t with
  | nil => exact .nil
  | cons c t ih => exact (escaped_escapeChar c).append ih

/-! ### Tags -/

/-- The names of elements that have a start tag and an end tag. -/
def elementNames : List Text :=
  ["div", "header", "footer", "nav", "main", "section", "aside", "article", "table", "thead",
    "tbody", "tr", "th", "td", "h1", "h2", "h3", "h4", "h5", "h6", "ul", "ol", "li", "label",
    "button", "textarea", "p", "a", "span"].map String.toList

/-- The names of void elements, which are one tag each. -/
def voidNames : List Text := ["hr", "input"].map String.toList

theorem Tag.name_mem_elementNames (tag : Tag) : tag.name ∈ elementNames := by
  cases tag with
  | heading level =>
    revert level
    decide
  | _ => decide

theorem VoidTag.name_mem_voidNames (tag : VoidTag) : tag.name ∈ voidNames := by
  cases tag <;> decide

/-- One or more small letters and dashes. -/
def AttributeName (t : Text) : Prop := t ≠ [] ∧ ∀ c ∈ t, c.isLower = true ∨ c = '-'

instance (t : Text) : Decidable (AttributeName t) :=
  haveI : Decidable (∀ c ∈ t, c.isLower = true ∨ c = '-') := List.decidableBAll _ t
  inferInstanceAs (Decidable (t ≠ [] ∧ ∀ c ∈ t, c.isLower = true ∨ c = '-'))

/-- The attributes of a tag, each after a space: a name, or a name and a value in double quotes. -/
inductive AttributeRun : Text → Prop
  | nil : AttributeRun []
  | bare {name rest : Text} (hn : AttributeName name) (hr : AttributeRun rest) :
      AttributeRun (' ' :: name ++ rest)
  | valued {name value rest : Text} (hn : AttributeName name) (hv : Escaped value)
      (hr : AttributeRun rest) :
      AttributeRun (' ' :: name ++ (['=', '"'] ++ value ++ ['"']) ++ rest)

theorem attributeRun_printAttributes {as : List Attribute} (h : ∀ a ∈ as, AttributeName a.name) :
    AttributeRun (printAttributes as) := by
  induction as with
  | nil => exact .nil
  | cons a as ih =>
    have hn : AttributeName a.name := h a List.mem_cons_self
    have hr : AttributeRun (printAttributes as) := ih fun b hb => h b (List.mem_cons_of_mem _ hb)
    rw [printAttributes, List.flatMap_cons, Attribute.print]
    cases a.value with
    | none =>
      rw [List.append_nil]
      exact .bare hn hr
    | some value => exact .valued hn (escaped_escape value) hr

/-! ### Elements -/

/-- A sequence of texts and elements. An element is a start tag, such a sequence and the end tag of
the same name, or the one tag of a void element. -/
inductive WellFormed : Text → Prop
  | text {t : Text} (ht : Escaped t) : WellFormed t
  | append {s t : Text} (hs : WellFormed s) (ht : WellFormed t) : WellFormed (s ++ t)
  | element {name attributes inner : Text} (hn : name ∈ elementNames)
      (ha : AttributeRun attributes) (hi : WellFormed inner) :
      WellFormed ('<' :: name ++ attributes ++ ['>'] ++ inner ++ ['<', '/'] ++ name ++ ['>'])
  | void {name attributes : Text} (hn : name ∈ voidNames) (ha : AttributeRun attributes) :
      WellFormed ('<' :: name ++ attributes ++ [' ', '/', '>'])

namespace Markup

mutual

/-- All attributes in a tree of markup have proper names. -/
def Named : Markup → Prop
  | text _ => True
  | element _ attributes children => (∀ a ∈ attributes, AttributeName a.name) ∧ NamedAll children
  | void _ attributes => ∀ a ∈ attributes, AttributeName a.name

def NamedAll : List Markup → Prop
  | [] => True
  | m :: ms => Named m ∧ NamedAll ms

end

theorem namedAll_iff {ms : List Markup} : NamedAll ms ↔ ∀ m ∈ ms, m.Named := by
  induction ms with
  | nil => simp [NamedAll]
  | cons m ms ih => simp [NamedAll, ih]

mutual

/-- Markup with proper names prints well formed. -/
theorem wellFormed_print (m : Markup) (h : m.Named) : WellFormed m.print := by
  cases m with
  | text t => exact .text (escaped_escape t)
  | element tag attributes children =>
    exact .element tag.name_mem_elementNames (attributeRun_printAttributes h.1)
      (wellFormed_printAll children h.2)
  | void tag attributes =>
    exact .void tag.name_mem_voidNames (attributeRun_printAttributes h)

theorem wellFormed_printAll (ms : List Markup) (h : NamedAll ms) : WellFormed (printAll ms) := by
  cases ms with
  | nil => exact .text .nil
  | cons m ms => exact .append (wellFormed_print m h.1) (wellFormed_printAll ms h.2)

end

end Markup

end Wireframe.Page
