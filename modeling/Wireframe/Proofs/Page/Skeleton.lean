import Wireframe.Proofs.Page.Document
import Wireframe.Proofs.Page.Tags
import Wireframe.Proofs.Text.Numeral

/-! A document tells the skeleton of its tree. A container is one element, and its start tag tells
what it is (`Container.startTag_injective`); a row is an element of another tag, and so is the table
that a run of table rows is merged into. The elements of a page are therefore nested as the
containers of its tree are (`nests_nodeMarkup`), and trees of one document have one skeleton
(`skeleton_eq_of_document_eq`). -/

namespace Wireframe

open Page

/-! ### Start tags of containers -/

namespace Container

def tag : Container → Tag
  | root => .div
  | sect name _ => sectionTag name
  | group => .div

/-- The attributes of a container. They do not tell what its ratio is over. -/
def attributes : Container → List Attribute
  | root => [valued "class" "root".toList]
  | sect name share => sectionAttributes name (share.map fun n => ⟨n, 1⟩)
  | group => [valued "class" "group".toList]

def startTag (c : Container) : Text := Page.startTag c.tag c.attributes

theorem attributeName_of_mem_class {name : Text} :
    ∀ a ∈ [valued "class" name], AttributeName a.name := fun a ha => by
  rw [List.mem_singleton.1 ha]
  exact (by decide : AttributeName "class".toList)

theorem attributeName_of_mem_attributes (c : Container) :
    ∀ a ∈ c.attributes, AttributeName a.name := by
  cases c with
  | root => exact attributeName_of_mem_class
  | sect name share => exact attributeName_of_mem_sectionAttributes
  | group => exact attributeName_of_mem_class

/-- A section has more attributes than a class. -/
theorem attributes_sect_ne (name : Text) (share : Option UInt32) (other : Text) :
    (sect name share).attributes ≠ [valued "class" other] := by
  cases share <;> simp [attributes, sectionAttributes]

theorem share_inj {m n : UInt32}
    (h : "flex:".toList ++ Text.ofNat m.toNat ++ " 1 0%".toList =
      "flex:".toList ++ Text.ofNat n.toNat ++ " 1 0%".toList) : m = n := by
  have h := List.append_cancel_left (List.append_cancel_right h)
  exact UInt32.toNat_inj.1 (by rw [← Text.value_ofNat m.toNat, h, Text.value_ofNat])

theorem attributes_sect_inj {name name' : Text} {share share' : Option UInt32}
    (h : (sect name share).attributes = (sect name' share').attributes) :
    name = name' ∧ share = share' := by
  cases share <;> cases share' <;>
    simp only [attributes, sectionAttributes, Option.map_none, Option.map_some, valued,
      List.cons.injEq, Attribute.mk.injEq, Option.some.injEq, true_and, and_true] at h
  · exact ⟨h, rfl⟩
  · exact absurd h.2 (by simp)
  · exact absurd h.2 (by simp)
  · exact ⟨h.2, congrArg some (share_inj h.1)⟩

theorem attributes_injective : Function.Injective attributes := by
  intro c d h
  cases c with
  | root =>
    cases d with
    | root => rfl
    | sect name share => exact absurd h.symm (attributes_sect_ne name share _)
    | group => exact absurd h (by decide)
  | sect name share =>
    cases d with
    | sect name' share' =>
      obtain ⟨rfl, rfl⟩ := attributes_sect_inj h
      rfl
    | _ => exact absurd h (attributes_sect_ne name share _)
  | group =>
    cases d with
    | root => exact absurd h (by decide)
    | sect name share => exact absurd h.symm (attributes_sect_ne name share _)
    | group => rfl

/-- Containers are told by their start tags. -/
theorem startTag_injective : Function.Injective startTag := fun c d h =>
  attributes_injective
    (startTag_inj c.attributeName_of_mem_attributes d.attributeName_of_mem_attributes h).2

/-- No container starts as a row or a table does. -/
theorem startTag_notMem_rowTags (c : Container) : c.startTag ∉ rowTags := by
  have hne : ∀ name ∈ ["wt-row".toList, "wt-table".toList],
      c.attributes ≠ [valued "class" name] := by
    intro name hname
    cases c with
    | sect title share => exact attributes_sect_ne title share name
    | _ =>
      simp only [List.mem_cons, List.not_mem_nil, or_false] at hname
      rcases hname with rfl | rfl <;> decide
  have htag : ∀ {row : Tag}, ∀ name ∈ ["wt-row".toList, "wt-table".toList],
      c.startTag ≠ Page.startTag row [valued "class" name] := fun name hname h =>
    hne name hname
      (startTag_inj c.attributeName_of_mem_attributes attributeName_of_mem_class h).2
  simp only [rowTags, List.mem_cons, List.not_mem_nil, or_false, not_or]
  exact ⟨htag _ (by decide), htag _ (by decide)⟩

end Container

namespace Page

open Markup

/-! ### Rows and tables -/

theorem nests_of_mem_rowTags {tag : Tag} {name : String} {children : List Markup}
    (h : startTag tag [valued "class" name.toList] ∈ rowTags) :
    (classed tag name children).nests = [] := if_pos h

theorem nests_rowMarkup (t : Text) : (rowMarkup t).nests = [] := by
  unfold rowMarkup
  dsimp only
  split <;> exact nests_of_mem_rowTags List.mem_cons_self

theorem nestsAll_closeTable (rows : List (List Text)) (ms : List Markup) :
    nestsAll (closeTable rows ms) = nestsAll ms := by
  cases rows with
  | nil => rfl
  | cons head more =>
    have htable : (tableMarkup head more).nests = [] :=
      nests_of_mem_rowTags (List.mem_cons_of_mem _ List.mem_cons_self)
    rw [closeTable, nestsAll, htable, List.nil_append]

/-- The elements of a part; the cells of a table row are none. -/
def Part.nests : Part → List (Nesting Text)
  | .tableRow _ => []
  | .markup m => m.nests

theorem nestsAll_mergeAfter (rows : List (List Text)) (ps : List Part) :
    nestsAll (mergeAfter rows ps) = ps.flatMap Part.nests := by
  induction ps generalizing rows with
  | nil => exact nestsAll_closeTable rows []
  | cons part ps ih =>
    cases part with
    | tableRow cells => exact ih (rows ++ [cells])
    | markup m =>
      rw [mergeAfter, nestsAll_closeTable, nestsAll, ih, List.flatMap_cons, Part.nests]

/-- Merging table rows leaves the other elements as and where they are. -/
theorem nestsAll_mergeTables (ps : List Part) :
    nestsAll (mergeTables ps) = ps.flatMap Part.nests :=
  nestsAll_mergeAfter [] ps

/-! ### Trees -/

theorem skeleton_of_tableCells? {t : Node} {cells : List Text} (h : tableCells? t = some cells) :
    t.skeleton = [] := by
  cases t with
  | row text => rfl
  | _ => exact absurd h (by simp [tableCells?])

theorem nests_container (c : Container) {children : List Markup} {ns : List (Nesting Container)}
    (h : nestsAll children = Nesting.mapAll Container.startTag ns) :
    (Markup.element c.tag c.attributes children).nests =
      Nesting.mapAll Container.startTag [.node c ns] := by
  have hrow : startTag c.tag c.attributes ∉ rowTags := c.startTag_notMem_rowTags
  rw [nests, if_neg hrow, h]
  rfl

mutual

/-- The elements of a tree's markup are nested as its containers are. -/
theorem nests_nodeMarkup (t : Node) :
    (nodeMarkup t).nests = Nesting.mapAll Container.startTag t.skeleton := by
  cases t with
  | root children =>
    exact nests_container .root
      ((nestsAll_mergeTables _).trans (flatMap_nests_parts children))
  | sect name ratio children =>
    have hattributes : sectionAttributes name ratio =
        (Container.sect name (ratio.map Ratio.n)).attributes := by
      cases ratio <;> rfl
    rw [nodeMarkup, hattributes]
    exact nests_container (.sect name (ratio.map Ratio.n))
      ((nestsAll_mergeTables _).trans (flatMap_nests_parts children))
  | group children =>
    exact nests_container .group
      ((nestsAll_mergeTables _).trans (flatMap_nests_parts children))
  | row text => exact nests_rowMarkup text

theorem flatMap_nests_parts (ts : List Node) :
    (parts ts).flatMap Part.nests = Nesting.mapAll Container.startTag (Node.skeletonAll ts) := by
  cases ts with
  | nil => rfl
  | cons t ts =>
    rw [parts, List.flatMap_cons, flatMap_nests_parts ts, Node.skeletonAll, Nesting.mapAll_append]
    cases h : tableCells? t with
    | some cells =>
      rw [skeleton_of_tableCells? h]
      rfl
    | none => exact congrArg (· ++ _) (nests_nodeMarkup t)

end

/-! ### Documents -/

theorem print_eq_of_document_eq {s t : Node} (h : document s = document t) :
    (nodeMarkup s).print = (nodeMarkup t).print :=
  List.append_cancel_left (List.append_cancel_right h)

/-- Trees of one document have one skeleton, whatever their rows and the names of their sections
are. -/
theorem skeleton_eq_of_document_eq {s t : Node} (h : document s = document t) :
    s.skeleton = t.skeleton := by
  have hnests : (nodeMarkup s).nests = (nodeMarkup t).nests := by
    -- both are read from the tags of the one text
    refine List.singleton_inj.1 ?_
    rw [← readTags_tagsIn_print _ (named_nodeMarkup s), print_eq_of_document_eq h,
      readTags_tagsIn_print _ (named_nodeMarkup t)]
  rw [nests_nodeMarkup, nests_nodeMarkup] at hnests
  exact Nesting.mapAll_injective Container.startTag_injective hnests

/-- A page whose section says how it would end, with a row that says so too. -/
def samplePage (denominator : UInt32) (row : String) : Node :=
  .root [.sect "a\"></section>".toList (some ⟨1, denominator⟩) [.row row.toList, .group []]]

theorem document_samplePage :
    document (samplePage 2 "</section>") = document (samplePage 3 " </section> ") := by
  have hmarkup : nodeMarkup (samplePage 2 "</section>") =
      nodeMarkup (samplePage 3 " </section> ") := by
    rfl
  rw [document, hmarkup]
  rfl

theorem skeleton_eq_of_document_eq_samplePage :
    (samplePage 2 "</section>").skeleton = (samplePage 3 " </section> ").skeleton :=
  skeleton_eq_of_document_eq document_samplePage

end Page

end Wireframe
