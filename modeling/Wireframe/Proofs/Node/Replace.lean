import Mathlib.Data.List.Nodup
import Wireframe.Proofs.Node.Address

/-! Replacing a node. The outline of a tree holds the outline of each of its nodes in one
piece, and when another node is put in place of one, only that piece changes
(`exists_outline_eq_replace`). So where the outlines of two trees differ in one such piece,
one tree is the other with a node replaced (`exists_replace_row`). -/

namespace Wireframe

open Outline Address

/-! ### The order of addresses -/

namespace Address

theorem Leads.not_mem {a : Address} {following : List Address} (h : Leads a following) :
    a ∉ following := by
  obtain ⟨inner, outer, rfl, hi, ho, -⟩ := h
  intro ha
  rcases List.mem_append.1 ha with ha | ha
  · exact Nat.lt_irrefl _ (hi a ha).2
  · exact (ho a ha).1 (List.prefix_refl a)

theorem Ordered.nodup {addresses : List Address} (h : Ordered addresses) : addresses.Nodup := by
  induction addresses with
  | nil => exact List.nodup_nil
  | cons a following ih => exact List.nodup_cons.2 ⟨h.1.not_mem, ih h.2⟩

end Address

namespace Node

/-! ### Replacing -/

/-- The tree with another node in place of the one at an address. -/
def replace : Address → (t new : Node) → Node
  | [], _, new => new
  | place :: a, t, new => t.item.toNode (t.children.modify place fun c => replace a c new)

theorem item_toNode (item : Item) (ts : List Node) : (item.toNode ts).item = item := by
  cases item <;> rfl

/-- The children are those given, unless the node is a row. -/
theorem children_toNode_item {t c : Node} (hc : c ∈ t.children) (ts : List Node) :
    (t.item.toNode ts).children = ts := by
  cases t with
  | row text => simp [children] at hc
  | _ => rfl

theorem outline_eq_cons (d : Nat) (t : Node) :
    t.outline d = ⟨d, t.item⟩ :: outlineAll (d + 1) t.children := by
  cases t <;> rfl

theorem addresses_eq_cons (t : Node) : t.addresses = [] :: addressesFrom 0 t.children := by
  cases t <;> rfl

theorem outlineAll_append (d : Nat) (ts us : List Node) :
    outlineAll d (ts ++ us) = outlineAll d ts ++ outlineAll d us := by
  induction ts with
  | nil => rfl
  | cons t ts ih => rw [List.cons_append, outlineAll, outlineAll, ih, List.append_assoc]

theorem addressesFrom_append (place : Nat) (ts us : List Node) :
    addressesFrom place (ts ++ us) =
      addressesFrom place ts ++ addressesFrom (place + ts.length) us := by
  induction ts generalizing place with
  | nil => rfl
  | cons t ts ih =>
    rw [List.cons_append, addressesFrom, addressesFrom, ih, List.append_assoc, List.length_cons]
    congr 3
    omega

theorem length_addressesFrom (d place : Nat) (ts : List Node) :
    (addressesFrom place ts).length = (outlineAll d ts).length := by
  have h := congrArg List.length (map_depth_outlineAll d place ts)
  simpa using h.symm

theorem exists_siblings_of_getElem? {ts : List Node} {place : Nat} {c : Node}
    (h : ts[place]? = some c) : ∃ left right, ts = left ++ c :: right ∧ left.length = place := by
  obtain ⟨hlt, hget⟩ := List.getElem?_eq_some_iff.1 h
  refine ⟨ts.take place, ts.drop (place + 1), ?_, List.length_take_of_le (Nat.le_of_lt hlt)⟩
  rw [← hget, ← List.drop_eq_getElem_cons hlt, List.take_append_drop]

/-- The outline of a node stands in one piece in the outline of the tree, as far into it as the
address stands in the document order, and another node in its place puts its own outline there. -/
theorem exists_outline_eq_replace {t s : Node} {a : Address} (h : t.at? a = some s) (d : Nat) :
    ∃ before after, t.outline d = before ++ (s.outline (d + a.length) ++ after) ∧
      t.addresses[before.length]? = some a ∧
      ∀ new, (t.replace a new).outline d = before ++ (new.outline (d + a.length) ++ after) := by
  induction a generalizing t d with
  | nil =>
    obtain rfl := Option.some.inj h
    refine ⟨[], [], (List.append_nil _).symm, ?_, fun new => (List.append_nil _).symm⟩
    rw [addresses_eq_cons]
    rfl
  | cons place a ih =>
    obtain ⟨c, hc, hs⟩ := Option.bind_eq_some_iff.1 h
    obtain ⟨before, after, ho, ha, hnew⟩ := ih hs (d + 1)
    have hdepth : d + 1 + a.length = d + (place :: a).length := by
      rw [List.length_cons]
      omega
    rw [hdepth] at ho hnew
    -- the child on the way down stands between its siblings
    obtain ⟨left, right, hch, rfl⟩ := exists_siblings_of_getElem? hc
    refine ⟨⟨d, t.item⟩ :: (outlineAll (d + 1) left ++ before), after ++ outlineAll (d + 1) right,
      ?_, ?_, fun new => ?_⟩
    · rw [outline_eq_cons, hch, outlineAll_append, outlineAll, ho]
      simp only [List.cons_append, List.append_assoc]
    · rw [addresses_eq_cons, hch, addressesFrom_append, addressesFrom, List.length_cons,
        List.getElem?_cons_succ, List.length_append, ← length_addressesFrom (d + 1) 0 left,
        List.getElem?_append_right (Nat.le_add_right ..), Nat.add_sub_cancel_left,
        List.getElem?_append_left, List.getElem?_map, ha, Nat.zero_add]
      · rfl
      · obtain ⟨hlt, -⟩ := List.getElem?_eq_some_iff.1 ha
        rwa [List.length_map]
    · rw [outline_eq_cons, replace, item_toNode, children_toNode_item (List.mem_of_getElem? hc),
        hch, List.modify_eq_take_drop, List.take_left, List.drop_left, List.modifyHead_cons,
        outlineAll_append, outlineAll, hnew]
      simp only [List.cons_append, List.append_assoc]

/-! ### Outlines further down -/

end Node

/-- The same entry so many levels further down. -/
def Entry.deeper (n : Nat) (e : Entry) : Entry := ⟨e.depth + n, e.item⟩

namespace Node

mutual

theorem outline_add (d n : Nat) (t : Node) : t.outline (d + n) = (t.outline d).map (.deeper n) := by
  rw [outline_eq_cons, outline_eq_cons d, List.map_cons, Nat.add_right_comm]
  cases t with
  | row text => rfl
  | root ts => exact congrArg _ (outlineAll_add (d + 1) n ts)
  | sect name ratio ts => exact congrArg _ (outlineAll_add (d + 1) n ts)
  | group ts => exact congrArg _ (outlineAll_add (d + 1) n ts)

theorem outlineAll_add (d n : Nat) (ts : List Node) :
    outlineAll (d + n) ts = (outlineAll d ts).map (.deeper n) := by
  cases ts with
  | nil => rfl
  | cons t ts =>
    rw [outlineAll, outlineAll, List.map_append, outline_add d n t, outlineAll_add d n ts]

end

/-- A tree is told by its outline. -/
theorem eq_of_outline_eq {d : Nat} {t u : Node} (h : t.outline d = u.outline d) : t = u := by
  have ht := foldr_attach_outline d t [] (by simp)
  have hu := foldr_attach_outline d u [] (by simp)
  rw [h, hu] at ht
  exact (Prod.mk.inj (List.cons.inj ht).1).2.symm

theorem exists_address_of_getElem? {d n : Nat} {t : Node} {e : Entry}
    (h : (t.outline d)[n]? = some e) :
    ∃ a, t.addresses[n]? = some a ∧ e.depth = d + a.length ∧ (t.at? a).map item = some e.item := by
  have hd := congrArg (·[n]?) (map_depth_outline d t)
  have hi := congrArg (·[n]?) (map_at?_addresses t)
  rw [← map_item_outline d] at hi
  simp only [List.getElem?_map, h, Option.map_some] at hd hi
  obtain ⟨a, ha, hlen⟩ := Option.map_eq_some_iff.1 hd.symm
  rw [ha, Option.map_some, Option.some.injEq] at hi
  exact ⟨a, ha, by omega, hi⟩

theorem eq_row_of_item {t : Node} {text : Text} (h : t.item = .row text) : t = .row text := by
  rw [← toNode_item t, h]
  rfl

/-- Where the outline of one tree has a row and that of another has the piece of a node, the other
tree is the one with that node in place of the row. -/
theorem exists_replace_row {ts us : List Node} {text : Text} {new : Node} {k : Nat}
    {before after : Outline} (ht : outlineAll 0 ts = before ++ ⟨k, .row text⟩ :: after)
    (hu : outlineAll 0 us = before ++ (new.outline k ++ after)) :
    ∃ a, (root ts).addresses[before.length + 1]? = some a ∧
      (root ts).at? a = some (.row text) ∧ root us = (root ts).replace a new := by
  have hroot : (root ts).outline 0 =
      (⟨0, .root⟩ :: before.map (.deeper 1)) ++
        ((row text).outline (k + 1) ++ after.map (.deeper 1)) := by
    rw [outline, outlineAll_add 0 1, ht, List.map_append]
    rfl
  have hentry : ((root ts).outline 0)[before.length + 1]? = some ⟨k + 1, .row text⟩ := by
    rw [hroot]
    simp [outline]
  obtain ⟨a, ha, hdepth, hitem⟩ := exists_address_of_getElem? hentry
  obtain ⟨s, hs, hsrow⟩ := Option.map_eq_some_iff.1 hitem
  obtain rfl : s = .row text := eq_row_of_item hsrow
  obtain ⟨before', after', ho, ha', hnew⟩ := exists_outline_eq_replace hs 0
  -- an address stands once in the document order, so the row is the one found
  have hlen : before'.length = before.length + 1 := by
    have hnodup := (ordered_addresses (root ts)).nodup
    obtain ⟨hlt, hget⟩ := List.getElem?_eq_some_iff.1 ha
    obtain ⟨hlt', hget'⟩ := List.getElem?_eq_some_iff.1 ha'
    exact hnodup.getElem_inj_iff.1 (hget'.trans hget.symm)
  rw [← show k + 1 = 0 + a.length from hdepth] at ho hnew
  obtain ⟨rfl, hrest⟩ := List.append_inj (ho.symm.trans hroot) (by simp [hlen])
  obtain rfl : after' = after.map (.deeper 1) := List.append_cancel_left hrest
  refine ⟨a, ha, hs, eq_of_outline_eq (d := 0) ?_⟩
  rw [hnew, outline, outlineAll_add 0 1, hu, List.map_append, List.map_append, ← outline_add]
  rfl

end Node

end Wireframe
