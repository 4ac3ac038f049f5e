import Wireframe.Page.Document
import Wireframe.Proofs.Page.Grammar

/-! The documents of all trees are well formed. Every widget, table row and container sets
attributes of its own only, so the markup of a tree has proper names
(`named_nodeMarkup`), and what rows and section names say comes into a document only as
the text of an element or the value of an attribute (`wellFormed_document`). -/

namespace Wireframe.Page

open Markup Row

/-! ### Rows -/

theorem named_classed {tag : Tag} {name : String} {children : List Markup}
    (h : ∀ m ∈ children, m.Named) : (classed tag name children).Named := by
  refine ⟨fun a ha => ?_, namedAll_iff.2 h⟩
  rw [List.mem_singleton.1 ha]
  exact (by decide : AttributeName "class".toList)

/-- An element without attributes. -/
theorem named_element {tag : Tag} {children : List Markup} (h : ∀ m ∈ children, m.Named) :
    (Markup.element tag [] children).Named :=
  ⟨by simp, namedAll_iff.2 h⟩

theorem named_text {t : Text} : ∀ m ∈ [Markup.text t], m.Named := by
  simp [Named]

theorem named_linkMarkup (label : Text) : (linkMarkup label).Named := by
  refine ⟨fun a ha => ?_, namedAll_iff.2 named_text⟩
  simp only [List.mem_cons, List.not_mem_nil, or_false] at ha
  rcases ha with rfl | rfl <;> decide

theorem named_badgeMarkup (label : Text) : (badgeMarkup label).Named := named_classed named_text

theorem named_inlineMarkup (t : Text) : ∀ m ∈ inlineMarkup t, m.Named := by
  intro m hm
  obtain ⟨piece, -, rfl⟩ := List.mem_map.1 hm
  match piece with
  | .plain c => trivial
  | .span (.link label) => exact named_linkMarkup label
  | .span (.badge label) => exact named_badgeMarkup label

theorem named_choiceMarkup (choice : Choice) (checked : Bool) (label : Text) :
    (choiceMarkup choice checked label).Named := by
  refine named_classed fun m hm => ?_
  rcases List.mem_cons.1 hm with rfl | hm
  · intro a ha
    rcases List.mem_cons.1 ha with rfl | ha
    · exact (by decide : AttributeName "type".toList)
    · cases checked with
      | false => simp at ha
      | true =>
        rw [List.mem_singleton.1 ha]
        decide
  · exact named_inlineMarkup label m hm

theorem named_labeledMarkup {label : Text} {control : Markup} (h : control.Named) :
    (labeledMarkup label control).Named := by
  refine named_classed fun m hm => ?_
  simp only [List.mem_cons, List.not_mem_nil, or_false] at hm
  rcases hm with rfl | rfl
  · exact named_element named_text
  · exact h

theorem named_textareaMarkup (label placeholder : Text) :
    (textareaMarkup label placeholder).Named := by
  refine named_labeledMarkup ⟨fun a ha => ?_, trivial⟩
  rw [List.mem_singleton.1 ha]
  exact (by decide : AttributeName "placeholder".toList)

theorem named_inputMarkup (label type placeholder : Text) :
    (inputMarkup label type placeholder).Named := by
  refine named_labeledMarkup fun a ha => ?_
  simp only [List.mem_cons, List.not_mem_nil, or_false] at ha
  rcases ha with rfl | rfl
  · exact (by decide : AttributeName "type".toList)
  · exact (by decide : AttributeName "placeholder".toList)

theorem named_widgetMarkup (widget : Widget) : (widgetMarkup widget).Named := by
  have hitem : ∀ (list : Tag) (t : Text),
      (Markup.element list [] [.element .li [] (inlineMarkup t)]).Named := fun list t =>
    named_element fun m hm => by
      rw [List.mem_singleton.1 hm]
      exact named_element (named_inlineMarkup t)
  cases widget with
  | heading level t => exact named_element (named_inlineMarkup t)
  | rule => simp [widgetMarkup, Named]
  | bullet t => exact hitem .ul t
  | ordered t => exact hitem .ol t
  | choice choice checked label => exact named_choiceMarkup choice checked label
  | button primary label => exact named_classed named_text
  | textarea label placeholder => exact named_textareaMarkup _ placeholder
  | input label field placeholder => exact named_inputMarkup _ _ placeholder
  | icon name => exact named_classed named_text
  | badge label => exact named_badgeMarkup label
  | link label => exact named_linkMarkup label
  | paragraph t => exact named_element (named_inlineMarkup t)

theorem named_cellMarkup (cell : Text) : ∀ m ∈ cellMarkup cell, m.Named := by
  intro m hm
  obtain ⟨widget, -, rfl⟩ := Option.map_eq_some_iff.1 (Option.mem_toList.1 hm)
  exact named_widgetMarkup widget

theorem named_rowMarkup (t : Text) : (rowMarkup t).Named := by
  unfold rowMarkup
  dsimp only
  split
  · refine named_classed fun m hm => ?_
    obtain ⟨cell, -, rfl⟩ := List.mem_map.1 hm
    exact named_classed (named_cellMarkup cell)
  · refine named_classed fun m hm => ?_
    rw [List.mem_singleton.1 hm]
    exact named_classed (named_cellMarkup _)

/-! ### Tables -/

theorem named_tableRowMarkup (cell : Tag) (cells : List Text) :
    (tableRowMarkup cell cells).Named := by
  refine named_element fun m hm => ?_
  obtain ⟨t, -, rfl⟩ := List.mem_map.1 hm
  exact named_element (named_inlineMarkup t)

theorem named_tableMarkup (head : List Text) (more : List (List Text)) :
    (tableMarkup head more).Named := by
  refine named_classed fun m hm => ?_
  simp only [List.mem_cons, List.not_mem_nil, or_false] at hm
  rcases hm with rfl | rfl
  · refine named_element fun m hm => ?_
    rw [List.mem_singleton.1 hm]
    exact named_tableRowMarkup .th head
  · refine named_element fun m hm => ?_
    obtain ⟨cells, -, rfl⟩ := List.mem_map.1 hm
    exact named_tableRowMarkup .td cells

theorem named_closeTable {rows : List (List Text)} {ms : List Markup} (h : ∀ m ∈ ms, m.Named) :
    ∀ m ∈ closeTable rows ms, m.Named := by
  cases rows with
  | nil => exact h
  | cons head more =>
    intro m hm
    rcases List.mem_cons.1 hm with rfl | hm
    · exact named_tableMarkup head more
    · exact h m hm

theorem named_mergeAfter {rows : List (List Text)} {ps : List Part}
    (h : ∀ m, .markup m ∈ ps → m.Named) : ∀ m ∈ mergeAfter rows ps, m.Named := by
  induction ps generalizing rows with
  | nil => exact named_closeTable (by simp)
  | cons part ps ih =>
    have hrest : ∀ m, .markup m ∈ ps → m.Named := fun m hm => h m (List.mem_cons_of_mem _ hm)
    cases part with
    | tableRow cells => exact ih hrest
    | markup m =>
      refine named_closeTable fun m' hm' => ?_
      rcases List.mem_cons.1 hm' with rfl | hm'
      · exact h m' List.mem_cons_self
      · exact ih hrest m' hm'

/-! ### Trees -/

theorem attributeName_of_mem_sectionAttributes {name : Text} {ratio : Option Ratio} :
    ∀ a ∈ sectionAttributes name ratio, AttributeName a.name := by
  intro a ha
  cases ratio with
  | none =>
    simp only [sectionAttributes, List.mem_cons, List.not_mem_nil, or_false] at ha
    rcases ha with rfl | rfl
    · decide
    · exact (by decide : AttributeName "data-wt".toList)
  | some r =>
    simp only [sectionAttributes, List.mem_cons, List.not_mem_nil, or_false] at ha
    rcases ha with rfl | rfl | rfl
    · decide
    · exact (by decide : AttributeName "style".toList)
    · exact (by decide : AttributeName "data-wt".toList)

mutual

theorem named_nodeMarkup (t : Node) : (nodeMarkup t).Named := by
  cases t with
  | root children => exact named_classed (named_mergeAfter (named_parts children))
  | sect name ratio children =>
    exact ⟨attributeName_of_mem_sectionAttributes,
      namedAll_iff.2 (named_mergeAfter (named_parts children))⟩
  | group children => exact named_classed (named_mergeAfter (named_parts children))
  | row text => exact named_rowMarkup text

theorem named_parts (ts : List Node) : ∀ m, .markup m ∈ parts ts → m.Named := by
  cases ts with
  | nil => simp [parts]
  | cons t ts =>
    intro m hm
    rw [parts, List.mem_cons] at hm
    rcases hm with hm | hm
    · cases hc : tableCells? t with
      | some cells => simp [hc] at hm
      | none =>
        rw [hc] at hm
        rw [Part.markup.inj hm]
        exact named_nodeMarkup t
    · exact named_parts ts m hm

end

/-- The body of every document is well formed. -/
theorem wellFormed_document (t : Node) :
    ∃ body, document t = documentHead ++ body ++ documentTail ∧ WellFormed body :=
  ⟨(nodeMarkup t).print, rfl, wellFormed_print _ (named_nodeMarkup t)⟩

end Wireframe.Page
