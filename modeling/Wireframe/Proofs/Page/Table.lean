import Wireframe.Proofs.Page.Document
import Wireframe.Proofs.Page.Inline
import Wireframe.Proofs.Page.Runs
import Wireframe.Proofs.Row.Cell

/-! Tables of a page. The children of a node are shown as their blocks in order, each block once, and
a run of table rows is one table: its first row is the head, and the others are the body but for a
second row of dashes (`childrenText_of_runs`). There is no other table among them
(`tables_nodeMarkup`, `tablesAll_blocks`), as start tags of tables are found in the text, and rows
have none. -/

namespace Wireframe.Page

open Markup Row

/-! ### Texts -/

/-- The text of the markup of the children of a node. -/
def childrenText (ts : List Node) : Text := printAll (mergeTables (parts ts))

/-- A row of a table, its cells in elements of the given name. -/
def rowText (cell : Text) (cells : List Text) : Text :=
  elementText "tr".toList [] (cells.flatMap fun t => elementText cell [] (inlineText t))

/-- A table with a head of one row. -/
def tableText (head : List Text) (body : List (List Text)) : Text :=
  elementText "table".toList " class=\"wt-table\"".toList
    (elementText "thead".toList [] (rowText "th".toList head) ++
      elementText "tbody".toList [] (body.flatMap (rowText "td".toList)))

/-- The rows of a table's body, given those after the first: the second row of the table is left out
if each of its cells is a run of dashes. -/
def bodyOf : List Text → List Text
  | [] => []
  | second :: more => if ∀ cell ∈ tableCells second, DashRun cell then more else second :: more

/-- The text of a node that is no table row. -/
def nodeText : Node → Text
  | .root children => elementText "div".toList " class=\"root\"".toList (childrenText children)
  | .group children => elementText "div".toList " class=\"group\"".toList (childrenText children)
  | .sect name ratio children =>
    elementText (sectionTag name).name (printAttributes (sectionAttributes name ratio))
      (childrenText children)
  | .row t => (rowMarkup t).print

def Block.text : Block → Text
  | .table first more => tableText (tableCells first) ((bodyOf more).map tableCells)
  | .other t => nodeText t

/-! ### Printed tables -/

theorem printAll_map {α : Type} (f : α → Markup) (xs : List α) :
    printAll (xs.map f) = xs.flatMap fun x => (f x).print := by
  induction xs with
  | nil => rfl
  | cons x xs ih => rw [List.map_cons, printAll, ih, List.flatMap_cons]

theorem print_tableRowMarkup (cell : Tag) (cells : List Text) :
    (tableRowMarkup cell cells).print = rowText cell.name cells := by
  rw [tableRowMarkup, print_element, printAll_map]
  simp only [print_element]
  rfl

theorem bodyRows_map (more : List Text) :
    bodyRows (more.map tableCells) = (bodyOf more).map tableCells := by
  cases more with
  | nil => rfl
  | cons second more =>
    rw [List.map_cons, bodyRows, bodyOf]
    by_cases h : ∀ cell ∈ tableCells second, DashRun cell
    · rw [if_pos (isSeparator_iff.2 h), if_pos h]
    · rw [if_neg (mt isSeparator_iff.1 h), if_neg h, List.map_cons]

theorem print_tableMarkup (head : List Text) (more : List (List Text)) :
    (tableMarkup head more).print = tableText head (bodyRows more) := by
  have hclass : printAttributes [valued "class" "wt-table".toList] =
      " class=\"wt-table\"".toList := by decide
  have hbody : printAll ((bodyRows more).map (tableRowMarkup .td)) =
      (bodyRows more).flatMap (rowText "td".toList) := by
    rw [printAll_map]
    simp only [print_tableRowMarkup]
    rfl
  rw [tableMarkup, classed, print_element, hclass, printAll, printAll_singleton, print_element,
    print_element, printAll_singleton, print_tableRowMarkup, hbody]
  rfl

theorem print_nodeMarkup (t : Node) : (nodeMarkup t).print = nodeText t := by
  cases t with
  | root children =>
    have hclass : printAttributes [valued "class" "root".toList] =
        " class=\"root\"".toList := by decide
    rw [nodeMarkup, classed, print_element, hclass]
    rfl
  | group children =>
    have hclass : printAttributes [valued "class" "group".toList] =
        " class=\"group\"".toList := by decide
    rw [nodeMarkup, classed, print_element, hclass]
    rfl
  | sect name ratio children =>
    rw [nodeMarkup, print_element]
    rfl
  | row t => rw [nodeMarkup, nodeText]

theorem print_blockMarkup (b : Block) : b.markup.print = b.text := by
  cases b with
  | table first more => rw [Block.markup, print_tableMarkup, bodyRows_map, Block.text]
  | other t => exact print_nodeMarkup t

/-- The text of the children of a node is that of their blocks in order. -/
theorem childrenText_of_runs {ts : List Node} {bs : List Block} (h : Runs ts bs) :
    childrenText ts = bs.flatMap Block.text := by
  rw [childrenText, mergeTables_parts h, printAll_map]
  simp only [print_blockMarkup]

/-! ### Numbers of tables -/

def isTableTag (tag : Text) : Bool := decide (tag.takeWhile Char.isAlphanum = "table".toList)

/-- The number of start tags of tables in a text. -/
def tables (t : Text) : Nat := (tagsIn t).countP isTableTag

namespace Markup

mutual

/-- The number of tables in markup. -/
def tables : Markup → Nat
  | text _ => 0
  | element tag _ children => (if tag = .table then 1 else 0) + tablesAll children
  | void _ _ => 0

def tablesAll : List Markup → Nat
  | [] => 0
  | m :: ms => tables m + tablesAll ms

end

theorem isTableTag_startTag (tag : Tag) (as : List Attribute) :
    isTableTag (startTag tag as) = decide (tag = .table) := by
  rw [isTableTag, takeWhile_startTag]
  cases tag with
  | heading level =>
    revert level
    decide
  | _ => decide

theorem isTableTag_void (tag : VoidTag) (as : List Attribute) :
    isTableTag (tag.name ++ printAttributes as ++ [' ', '/']) = false := by
  rw [isTableTag, takeWhile_void]
  cases tag <;> decide

mutual

theorem countP_tags (m : Markup) : m.tags.countP isTableTag = m.tables := by
  cases m with
  | text t => rfl
  | element tag attributes children =>
    have hend : isTableTag ('/' :: tag.name) = false := rfl
    rw [tags, List.countP_cons, List.countP_append, countP_tagsAll children, isTableTag_startTag,
      List.countP_singleton, hend, tables, Nat.add_comm]
    simp
  | void tag attributes => rw [tags, List.countP_singleton, isTableTag_void, tables]; rfl

theorem countP_tagsAll (ms : List Markup) : (tagsAll ms).countP isTableTag = tablesAll ms := by
  cases ms with
  | nil => rfl
  | cons m ms => rw [tagsAll, List.countP_append, countP_tags m, countP_tagsAll ms, tablesAll]

end

theorem tables_element {tag : Tag} (h : tag ≠ .table) (as : List Attribute) (ms : List Markup) :
    (element tag as ms).tables = tablesAll ms := by
  rw [tables, if_neg h, Nat.zero_add]

theorem tablesAll_singleton (m : Markup) : tablesAll [m] = m.tables := Nat.add_zero _

theorem tablesAll_eq_zero {ms : List Markup} (h : ∀ m ∈ ms, m.tables = 0) : tablesAll ms = 0 := by
  induction ms with
  | nil => rfl
  | cons m ms ih =>
    obtain ⟨hm, hms⟩ := List.forall_mem_cons.1 h
    rw [tablesAll, hm, ih hms]

theorem tablesAll_map_eq_zero {α : Type} {f : α → Markup} {xs : List α}
    (h : ∀ x, (f x).tables = 0) : tablesAll (xs.map f) = 0 :=
  tablesAll_eq_zero (List.forall_mem_map.2 fun x _ => h x)

end Markup

/-- The tables of printed markup are found in its text. -/
theorem tables_printAll {ms : List Markup} (h : ∀ m ∈ ms, m.Named) :
    tables (printAll ms) = tablesAll ms := by
  rw [tables, ← List.append_nil (printAll ms), tagsIn_printAll ms (namedAll_iff.2 h),
    List.countP_append, countP_tagsAll]
  rfl

/-! ### Rows hold no tables -/

theorem tables_inlineMarkup (t : Text) : tablesAll (inlineMarkup t) = 0 := by
  refine tablesAll_map_eq_zero fun piece => ?_
  match piece with
  | .plain c => rfl
  | .span (.link label) => rfl
  | .span (.badge label) => rfl

theorem tables_widgetMarkup (w : Widget) : (widgetMarkup w).tables = 0 := by
  have hitem : ∀ (list : Tag), list ≠ .table → ∀ t : Text,
      (Markup.element list [] [.element .li [] (inlineMarkup t)]).tables = 0 := by
    intro list hlist t
    rw [tables_element hlist, tablesAll_singleton, tables_element (by decide), tables_inlineMarkup]
  cases w with
  | heading level t => exact (tables_element (by simp) _ _).trans (tables_inlineMarkup t)
  | bullet t => exact hitem .ul (by decide) t
  | ordered t => exact hitem .ol (by decide) t
  | choice choice checked label =>
    rw [widgetMarkup, choiceMarkup, classed, tables_element (by decide), tablesAll,
      tables_inlineMarkup]
    rfl
  | paragraph t => exact (tables_element (by decide) _ _).trans (tables_inlineMarkup t)
  | _ => rfl

theorem tables_cellMarkup (cell : Text) : tablesAll (cellMarkup cell) = 0 := by
  refine tablesAll_eq_zero fun m hm => ?_
  obtain ⟨w, -, rfl⟩ := Option.map_eq_some_iff.1 (Option.mem_toList.1 hm)
  exact tables_widgetMarkup w

theorem tables_rowMarkup (t : Text) : (rowMarkup t).tables = 0 := by
  have hcell : ∀ name cell, (classed .div name (cellMarkup cell)).tables = 0 := fun name cell =>
    (tables_element (by decide) _ _).trans (tables_cellMarkup cell)
  unfold rowMarkup
  dsimp only
  split
  · exact (tables_element (by decide) _ _).trans (tablesAll_map_eq_zero fun cell => hcell _ cell)
  · rw [classed, tables_element (by decide), tablesAll_singleton, hcell]

theorem tables_tableRowMarkup {cell : Tag} (h : cell ≠ .table) (cells : List Text) :
    (tableRowMarkup cell cells).tables = 0 := by
  refine (tables_element (by decide) _ _).trans (tablesAll_map_eq_zero fun t => ?_)
  rw [tables_element h, tables_inlineMarkup]

theorem tables_tableMarkup (head : List Text) (more : List (List Text)) :
    (tableMarkup head more).tables = 1 := by
  have hhead : (Markup.element .thead [] [tableRowMarkup .th head]).tables = 0 := by
    rw [tables_element (by decide), tablesAll_singleton, tables_tableRowMarkup (by decide)]
  have hbody : (Markup.element .tbody [] ((bodyRows more).map (tableRowMarkup .td))).tables = 0 :=
    (tables_element (by decide) _ _).trans
      (tablesAll_map_eq_zero (tables_tableRowMarkup (by decide)))
  rw [tableMarkup, classed, Markup.tables, if_pos rfl, tablesAll, tablesAll_singleton, hhead, hbody]

/-! ### Children -/

theorem tables_childrenText (ts : List Node) :
    tables (childrenText ts) = tablesAll (mergeTables (parts ts)) :=
  tables_printAll (named_mergeAfter (named_parts ts))

theorem sectionTag_ne_table (name : Text) : sectionTag name ≠ .table := by
  unfold sectionTag
  cases h : sectionTags.find? fun tag => tag.name = name.map Char.toLower with
  | none => decide
  | some tag =>
    rintro rfl
    exact absurd (List.mem_of_find?_eq_some h) (by decide)

/-- The tables in the markup of a node are those of its children. -/
theorem tables_nodeMarkup (t : Node) :
    (nodeMarkup t).tables = tables (childrenText t.children) := by
  rw [tables_childrenText]
  cases t with
  | sect name ratio children =>
    exact tables_element (sectionTag_ne_table name) _ _
  | row t => exact tables_rowMarkup t
  | _ => exact Nat.zero_add _

/-- The number of tables in the children of some nodes. -/
def innerTables (ts : List Node) : Nat :=
  ts.foldr (fun t n => tables (childrenText t.children) + n) 0

theorem innerTables_append (ts us : List Node) :
    innerTables (ts ++ us) = innerTables ts + innerTables us := by
  induction ts with
  | nil => exact (Nat.zero_add _).symm
  | cons t ts ih =>
    rw [innerTables, List.cons_append, List.foldr_cons]
    exact (congrArg _ ih).trans (Nat.add_assoc _ _ _).symm

theorem innerTables_rows (texts : List Text) : innerTables (texts.map .row) = 0 := by
  induction texts with
  | nil => rfl
  | cons text texts ih => exact (Nat.zero_add _).trans ih

/-- The tables of some blocks: one for each run of table rows, and those in the other nodes. -/
theorem tablesAll_blocks (bs : List Block) :
    tablesAll (bs.map Block.markup) =
      bs.countP Block.isTable + innerTables (bs.flatMap Block.nodes) := by
  induction bs with
  | nil => rfl
  | cons b bs ih =>
    rw [List.map_cons, tablesAll, ih, List.countP_cons, List.flatMap_cons, innerTables_append]
    cases b with
    | table first more =>
      have hrows : innerTables (Block.table first more).nodes = 0 :=
        innerTables_rows (first :: more)
      rw [hrows, Block.markup, tables_tableMarkup, Block.isTable, if_pos rfl]
      omega
    | other t =>
      have hnode : innerTables (Block.other t).nodes = tables (childrenText t.children) := rfl
      rw [hnode, Block.markup, tables_nodeMarkup, Block.isTable, if_neg Bool.false_ne_true]
      omega

/-- What the children of a node are shown as, given their blocks. -/
structure MergesTables (ts : List Node) (bs : List Block) : Prop where
  /-- The children fall into maximal runs of table rows and other nodes in no other way. -/
  runs : ∀ cs, Runs ts cs ↔ cs = bs
  text : childrenText ts = bs.flatMap Block.text
  /-- One table for each run, and no other but those among the children's children. -/
  tables : tables (childrenText ts) = bs.countP Block.isTable + innerTables ts

/-- The table rows among the children of a node are merged into one table for each run of them, and
the cells of a table row are those it was written from. -/
theorem mergesTables : (∀ ts, MergesTables ts (blocks ts)) ∧
    ∀ cells t, WrittenFrom cells t → isTableRow t = true ∧ tableCells t = cells := by
  refine ⟨fun ts => ?_, fun cells t h => h.tableCells_eq⟩
  have hruns := runs_blocks ts
  refine ⟨fun cs => runs_iff, childrenText_of_runs hruns, ?_⟩
  rw [tables_childrenText, mergeTables_parts hruns, tablesAll_blocks, hruns.nodes]

/-- A row with two cells, the second of them empty. -/
theorem mergesTables_sample : WrittenFrom ["a b".toList, []] "| a b ||".toList ∧
    isTableRow "| a b ||".toList = true ∧ tableCells "| a b ||".toList = ["a b".toList, []] := by
  have hspace : ∀ c ∈ [' '], blank c = true := List.forall_mem_singleton.2 (by decide)
  have hnone : ∀ c ∈ ([] : Text), blank c = true := fun _ hc => absurd hc List.not_mem_nil
  have hwritten : WrittenFrom ["a b".toList, []] "| a b ||".toList :=
    { ne_nil := List.cons_ne_nil _ _
      trimmed := List.forall_mem_cons.2 ⟨by decide, List.forall_mem_singleton.2 (by decide)⟩
      pipe_notMem := List.forall_mem_cons.2 ⟨by decide, List.forall_mem_singleton.2 (by decide)⟩
      written := ⟨[" a b ".toList, []], .cons ⟨[' '], [' '], hspace, hspace, by decide⟩
        (.cons ⟨[], [], hnone, hnone, rfl⟩ .nil), by decide⟩ }
  exact ⟨hwritten, mergesTables.2 _ _ hwritten⟩

end Wireframe.Page
