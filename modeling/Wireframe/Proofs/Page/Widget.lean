import Wireframe.Proofs.Page.Inline
import Wireframe.Proofs.Row.Widget

/-! What a widget is shown as (`Shown`), case by case: the texts of headings, items and choices as
inline text, all other payloads escaped, and a field by whether its name is that of an input type.
What is written for a widget is dispatched to the rule for its kind and shown as that widget and as
nothing else (`dispatch_eq_of_written`). -/

namespace Wireframe.Page

open Row (Widget Choice)

/-! ### Texts of widgets -/

/-- The text of an attribute, given that of its value. -/
def attributeText (name value : Text) : Text := ' ' :: (name ++ '=' :: '"' :: (value ++ ['"']))

/-- The text of a void element, given that of its attributes. -/
def voidText (name attributes : Text) : Text := '<' :: (name ++ attributes ++ [' ', '/', '>'])

/-- The text of an element with a class. -/
def classedText (name value inner : Text) : Text :=
  elementText name (attributeText "class".toList value) inner

/-- The text of a control with its label before it. -/
def labeledText (label control : Text) : Text :=
  classedText "div".toList "wt-input".toList
    (elementText "label".toList [] (escape label) ++ control)

def choiceText (type : Text) (checked : Bool) (label : Text) : Text :=
  classedText "label".toList "wt-choice".toList
    (voidText "input".toList (attributeText "type".toList type ++
      if checked then " checked".toList else []) ++ inlineText label)

def textareaText (label placeholder : Text) : Text :=
  labeledText label
    (elementText "textarea".toList (attributeText "placeholder".toList (escape placeholder)) [])

def inputText (label type placeholder : Text) : Text :=
  labeledText label (voidText "input".toList (attributeText "type".toList (escape type) ++
    attributeText "placeholder".toList (escape placeholder)))

/-- The names of fields that stand for an input type. -/
def knownTypes : List Text :=
  ["text", "password", "date", "time", "phone", "email", "number", "url", "search", "tel", "color",
    "file", "range"].map String.toList

/-- The type of the input for a field, and the label of a field that has none of its own. -/
inductive FieldShown : (name type label : Text) → Prop
  | known {name : Text} (h : name ∈ knownTypes) : FieldShown name name name
  | other {name : Text} (h : name ∉ knownTypes) :
      FieldShown name "text".toList (name.map fun c => if c = '_' then ' ' else c)

/-- What a widget is shown as. -/
inductive Shown : Widget → Text → Prop
  | heading (level : Fin 6) (t : Text) :
      Shown (.heading level t) (elementText ('h' :: Text.ofNat (level + 1)) [] (inlineText t))
  | rule : Shown .rule (voidText "hr".toList [])
  | bullet (t : Text) :
      Shown (.bullet t) (elementText "ul".toList [] (elementText "li".toList [] (inlineText t)))
  | ordered (t : Text) :
      Shown (.ordered t) (elementText "ol".toList [] (elementText "li".toList [] (inlineText t)))
  | checkbox (checked : Bool) (label : Text) :
      Shown (.choice .checkbox checked label) (choiceText "checkbox".toList checked label)
  | radio (checked : Bool) (label : Text) :
      Shown (.choice .radio checked label) (choiceText "radio".toList checked label)
  | primaryButton (label : Text) :
      Shown (.button true label)
        (classedText "button".toList "wt-btn primary".toList (escape label))
  | button (label : Text) :
      Shown (.button false label) (classedText "button".toList "wt-btn".toList (escape label))
  | labeledTextarea (label placeholder : Text) :
      Shown (.textarea (some label) placeholder) (textareaText label placeholder)
  | textarea (placeholder : Text) :
      Shown (.textarea none placeholder) (textareaText "text".toList placeholder)
  | labeledInput {name type own label placeholder : Text} (h : FieldShown name type own) :
      Shown (.input (some label) name placeholder) (inputText label type placeholder)
  | input {name type own placeholder : Text} (h : FieldShown name type own) :
      Shown (.input none name placeholder) (inputText own type placeholder)
  | icon (name : Text) :
      Shown (.icon name) (classedText "span".toList "wt-icon".toList (escape name))
  | badge (label : Text) :
      Shown (.badge label) (classedText "span".toList "wt-badge".toList (escape label))
  | link (label : Text) :
      Shown (.link label) (elementText "a".toList
        (attributeText "href".toList ['#'] ++ attributeText "class".toList "wt-link".toList)
        (escape label))
  | paragraph (t : Text) : Shown (.paragraph t) (elementText "p".toList [] (inlineText t))

/-! ### Printing -/

theorem printAttributes_valued (name : String) (value : Text) (as : List Attribute) :
    printAttributes (valued name value :: as) =
      attributeText name.toList (escape value) ++ printAttributes as := by
  rw [printAttributes, List.flatMap_cons, Attribute.print]
  simp [valued, attributeText, printAttributes]

theorem printAttributes_singleton (name : String) (value : Text) :
    printAttributes [valued name value] = attributeText name.toList (escape value) :=
  (printAttributes_valued name value []).trans (List.append_nil _)

theorem print_void (tag : VoidTag) (attributes : List Attribute) :
    (Markup.void tag attributes).print = voidText tag.name (printAttributes attributes) := by
  rw [Markup.print, voidText]
  simp

theorem print_classed (tag : Tag) {name : String} (hn : escape name.toList = name.toList)
    (children : List Markup) : (classed tag name children).print =
      classedText tag.name name.toList (Markup.printAll children) := by
  rw [classed, print_element, printAttributes_singleton, hn, classedText]

/-- An element with a class that holds a text alone. -/
theorem print_classed_text (tag : Tag) {name : String} (hn : escape name.toList = name.toList)
    (t : Text) : (classed tag name [.text t]).print =
      classedText tag.name name.toList (escape t) := by
  rw [print_classed tag hn, printAll_singleton, Markup.print]

theorem print_labeledMarkup (label : Text) (control : Markup) :
    (labeledMarkup label control).print = labeledText label control.print := by
  rw [labeledMarkup, print_classed _ (by decide), Markup.printAll, printAll_singleton,
    print_element, printAll_singleton]
  rfl

theorem print_choiceMarkup {choice : Choice} {type : Text} (ht : choiceType choice = type)
    (he : escape type = type) (checked : Bool) (label : Text) :
    (choiceMarkup choice checked label).print = choiceText type checked label := by
  rw [choiceMarkup, print_classed _ (by decide), Markup.printAll, print_void,
    printAttributes_valued, ht, he]
  cases checked <;> rfl

theorem print_textareaMarkup (label placeholder : Text) :
    (textareaMarkup label placeholder).print = textareaText label placeholder := by
  rw [textareaMarkup, print_labeledMarkup, print_element, printAttributes_singleton]
  rfl

theorem print_inputMarkup (label type placeholder : Text) :
    (inputMarkup label type placeholder).print = inputText label type placeholder := by
  rw [inputMarkup, print_labeledMarkup, print_void, printAttributes_valued,
    printAttributes_singleton]
  rfl

/-- The type and the label that a field is given are those that its name says. -/
theorem fieldShown_iff {name type own : Text} :
    FieldShown name type own ↔ type = fieldType name ∧ own = fieldLabel name := by
  have hknown : Row.isInputType name = true ↔ name ∈ knownTypes := List.contains_iff_mem
  rw [fieldType, fieldLabel]
  constructor
  · rintro (h | h)
    · rw [if_pos (hknown.2 h), if_pos (hknown.2 h)]
      exact ⟨rfl, rfl⟩
    · rw [if_neg (mt hknown.1 h), if_neg (mt hknown.1 h)]
      exact ⟨rfl, rfl⟩
  · rintro ⟨rfl, rfl⟩
    by_cases h : name ∈ knownTypes
    · rw [if_pos (hknown.2 h), if_pos (hknown.2 h)]
      exact .known h
    · rw [if_neg (mt hknown.1 h), if_neg (mt hknown.1 h)]
      exact .other h

theorem print_of_shown {w : Widget} {t : Text} (h : Shown w t) : (widgetMarkup w).print = t := by
  cases h with
  | heading level t =>
    have hlevel : Text.ofNat (level + 1) = [Nat.digitChar (level + 1)] :=
      Nat.toDigits_of_lt_base (by omega)
    rw [widgetMarkup, print_element, hlevel]
    rfl
  | rule => exact print_void .hr []
  | bullet t =>
    rw [widgetMarkup, print_element, printAll_singleton, print_element]
    rfl
  | ordered t =>
    rw [widgetMarkup, print_element, printAll_singleton, print_element]
    rfl
  | checkbox checked label => exact print_choiceMarkup rfl (by decide) checked label
  | radio checked label => exact print_choiceMarkup rfl (by decide) checked label
  | primaryButton label => exact print_classed_text .button (by decide) label
  | button label => exact print_classed_text .button (by decide) label
  | labeledTextarea label placeholder => exact print_textareaMarkup _ _
  | textarea placeholder => exact print_textareaMarkup _ _
  | labeledInput hfield =>
    obtain ⟨rfl, -⟩ := fieldShown_iff.1 hfield
    exact print_inputMarkup _ _ _
  | input hfield =>
    obtain ⟨rfl, rfl⟩ := fieldShown_iff.1 hfield
    exact print_inputMarkup _ _ _
  | icon name => exact print_classed_text .span (by decide) name
  | badge label => exact print_classed_text .span (by decide) label
  | link label =>
    have hhref : escape ['#'] = ['#'] := by decide
    have hclass : escape "wt-link".toList = "wt-link".toList := by decide
    rw [widgetMarkup, linkMarkup, print_element, printAttributes_valued, printAttributes_singleton,
      printAll_singleton, hhref, hclass]
    rfl
  | paragraph t =>
    rw [widgetMarkup, print_element]
    rfl

theorem exists_shown (w : Widget) : ∃ t, Shown w t := by
  cases w with
  | heading level t => exact ⟨_, .heading level t⟩
  | rule => exact ⟨_, .rule⟩
  | bullet t => exact ⟨_, .bullet t⟩
  | ordered t => exact ⟨_, .ordered t⟩
  | choice choice checked label =>
    cases choice with
    | checkbox => exact ⟨_, .checkbox checked label⟩
    | radio => exact ⟨_, .radio checked label⟩
  | button primary label =>
    cases primary with
    | true => exact ⟨_, .primaryButton label⟩
    | false => exact ⟨_, .button label⟩
  | textarea label placeholder =>
    cases label with
    | some label => exact ⟨_, .labeledTextarea label placeholder⟩
    | none => exact ⟨_, .textarea placeholder⟩
  | input label name placeholder =>
    cases label with
    | some label => exact ⟨_, .labeledInput (fieldShown_iff.2 ⟨rfl, rfl⟩)⟩
    | none => exact ⟨_, .input (fieldShown_iff.2 ⟨rfl, rfl⟩)⟩
  | icon name => exact ⟨_, .icon name⟩
  | badge label => exact ⟨_, .badge label⟩
  | link label => exact ⟨_, .link label⟩
  | paragraph t => exact ⟨_, .paragraph t⟩

/-- The markup of a widget is what the widget is shown as. -/
theorem print_widgetMarkup_eq_iff {w : Widget} {t : Text} :
    (widgetMarkup w).print = t ↔ Shown w t := by
  constructor
  · rintro rfl
    obtain ⟨t, ht⟩ := exists_shown w
    rwa [print_of_shown ht]
  · exact print_of_shown

/-! ### Texts of cells -/

/-- A cell that is not blank is shown by what its trimmed text is dispatched to. -/
theorem printAll_cellMarkup {cell : Text} (h : cell.isBlank = false) :
    Markup.printAll (cellMarkup cell) = (dispatch cell.trim).2 := by
  rw [cellMarkup, Widget.ofCell?, h]
  exact printAll_singleton _

/-- What is written for a widget reaches the rule for its kind and is shown as that widget. -/
theorem dispatch_eq_of_written {w : Widget} {t : Text} (h : Widget.Written w t) :
    (dispatch t).1 = w.ruleName ∧ ∀ shown, (dispatch t).2 = shown ↔ Shown w shown := by
  rw [dispatch, Widget.dispatch_of_written h]
  exact ⟨rfl, fun _ => print_widgetMarkup_eq_iff⟩

/-- A placeholder that reads like a control with a label, fields that name an input type and fields
that do not, and choices. -/
theorem dispatch_eq_of_written_samples :
    (Widget.Written (.textarea (some "Notes [x]".toList) "x: ^^ <b>".toList)
        "Notes [x]: ^^ \"x: ^^ <b>\"".toList ∧
      dispatch "Notes [x]: ^^ \"x: ^^ <b>\"".toList = ("labeled-textarea".toList,
        "<div class=\"wt-input\"><label>Notes [x]</label>".toList ++
          "<textarea placeholder=\"x: ^^ &lt;b&gt;\"></textarea></div>".toList)) ∧
    (Widget.Written (.input (some "Mail".toList) "email".toList []) "Mail: ^email".toList ∧
      dispatch "Mail: ^email".toList = ("labeled-input".toList,
        "<div class=\"wt-input\"><label>Mail</label>".toList ++
          "<input type=\"email\" placeholder=\"\" /></div>".toList)) ∧
    (Widget.Written (.input (some "Name".toList) "first_name".toList "Jane".toList)
        "Name: ^first_name \"Jane\"".toList ∧
      dispatch "Name: ^first_name \"Jane\"".toList = ("labeled-input".toList,
        "<div class=\"wt-input\"><label>Name</label>".toList ++
          "<input type=\"text\" placeholder=\"Jane\" /></div>".toList)) ∧
    (Widget.Written (.input none "date".toList []) "^date".toList ∧
      dispatch "^date".toList = ("input".toList,
        "<div class=\"wt-input\"><label>date</label>".toList ++
          "<input type=\"date\" placeholder=\"\" /></div>".toList)) ∧
    (Widget.Written (.input none "first_name".toList "Jane".toList)
        "^first_name \"Jane\"".toList ∧
      dispatch "^first_name \"Jane\"".toList = ("input".toList,
        "<div class=\"wt-input\"><label>first name</label>".toList ++
          "<input type=\"text\" placeholder=\"Jane\" /></div>".toList)) ∧
    (Widget.Written (.choice .checkbox true "Done".toList) "[X] Done".toList ∧
      dispatch "[X] Done".toList = ("checkbox".toList,
        "<label class=\"wt-choice\"><input type=\"checkbox\" checked />Done</label>".toList)) ∧
    (Widget.Written (.choice .radio false "Later".toList) "( ) Later".toList ∧
      dispatch "( ) Later".toList = ("radio".toList,
        "<label class=\"wt-choice\"><input type=\"radio\" />Later</label>".toList)) := by
  have hgap : ∀ c ∈ [' '], blank c = true := List.forall_mem_singleton.2 (by decide)
  have hjane : Row.Placed "Jane".toList " \"Jane\"".toList := .quoted hgap (by decide)
  have hfield : ∀ {name : Text}, name.all Row.isFieldChar = true →
      ∀ c ∈ name, c.isAlphanum = true ∨ c = '_' := fun hall c hc =>
    Row.isFieldChar_iff.1 (List.all_eq_true.1 hall c hc)
  have hempty : Row.Placed [] [] := .empty fun _ hc => absurd hc List.not_mem_nil
  have harea : Widget.Written (.textarea (some "Notes [x]".toList) "x: ^^ <b>".toList)
      "Notes [x]: ^^ \"x: ^^ <b>\"".toList :=
    .textarea (.some ⟨⟨'N', rfl, rfl⟩, by decide, by decide⟩ hgap) (.quoted hgap (by decide))
  have hmail : Widget.Written (.input (some "Mail".toList) "email".toList [])
      "Mail: ^email".toList :=
    .input (.some ⟨⟨'M', rfl, rfl⟩, by decide, by decide⟩ hgap) (by decide)
      (hfield (by decide)) hempty
  have hname : Widget.Written (.input (some "Name".toList) "first_name".toList "Jane".toList)
      "Name: ^first_name \"Jane\"".toList :=
    .input (.some ⟨⟨'N', rfl, rfl⟩, by decide, by decide⟩ hgap) (by decide)
      (hfield (by decide)) hjane
  have hdate : Widget.Written (.input none "date".toList []) "^date".toList :=
    .input .none (by decide) (hfield (by decide)) hempty
  have hfirst : Widget.Written (.input none "first_name".toList "Jane".toList)
      "^first_name \"Jane\"".toList :=
    .input .none (by decide) (hfield (by decide)) hjane
  have hdone : Widget.Written (.choice .checkbox true "Done".toList) "[X] Done".toList :=
    @Widget.Written.labeledChoice .checkbox ['X'] [' '] "Done".toList true (by decide)
      ⟨by decide, hgap⟩ ⟨by decide, by decide, by decide⟩
  have hlater : Widget.Written (.choice .radio false "Later".toList) "( ) Later".toList :=
    @Widget.Written.labeledChoice .radio [' '] [' '] "Later".toList false (by decide)
      ⟨by decide, hgap⟩ ⟨by decide, by decide, by decide⟩
  have hshow : ∀ {w : Widget} {t rule shown shown' : Text}, Widget.Written w t →
      Shown w shown → w.ruleName = rule → shown' = shown → dispatch t = (rule, shown') := by
    rintro w t rule shown shown' hw hs rfl rfl
    exact Prod.ext (dispatch_eq_of_written hw).1 (((dispatch_eq_of_written hw).2 _).2 hs)
  -- taken off the literals, the characters need not be decoded
  have hread : ∀ {l m : Text}, (String.ofList l).toList ++ (String.ofList m).toList = l ++ m := by
    intro l m
    rw [String.toList_ofList, String.toList_ofList]
  exact ⟨⟨harea, hshow harea (.labeledTextarea _ _) rfl hread⟩,
    ⟨hmail, hshow hmail (.labeledInput (.known (by decide))) rfl hread⟩,
    ⟨hname, hshow hname (.labeledInput (.other (by decide))) rfl hread⟩,
    ⟨hdate, hshow hdate (.input (.known (by decide))) rfl hread⟩,
    ⟨hfirst, hshow hfirst (.input (.other (by decide))) rfl hread⟩,
    ⟨hdone, hshow hdone (.checkbox _ _) rfl String.toList_ofList⟩,
    ⟨hlater, hshow hlater (.radio _ _) rfl String.toList_ofList⟩⟩

end Wireframe.Page
