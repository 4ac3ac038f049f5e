import Wireframe.Node

/-!
Outlines. An outline lists the items of a tree below its root in document order, each with its
depth, the number of nodes it lies in. `Outline.forest` builds the trees of an outline from its end:
an item takes as children the trees that follow it and lie deeper. `Node.outline` goes the other
way, and the trees of the outline of a list of trees are that list (`forest_outlineAll`).
-/

namespace Wireframe

/-- An item and the number of nodes it lies in, the root not counted. -/
structure Entry where
  depth : Nat
  item : Item
  deriving DecidableEq

abbrev Outline := List Entry

namespace Outline

/-- Puts an entry before trees already built: those right after it that lie deeper are its own. -/
def attach (e : Entry) (trees : List (Nat × Node)) : List (Nat × Node) :=
  (e.depth, e.item.toNode ((trees.takeWhile (e.depth < ·.1)).map (·.2))) ::
    trees.dropWhile (e.depth < ·.1)

/-- The trees of an outline, each with the depth of its top. -/
def trees (o : Outline) : List (Nat × Node) := o.foldr attach []

/-- The trees of an outline in document order. -/
def forest (o : Outline) : List Node := o.trees.map (·.2)

end Outline

namespace Node

mutual

/-- The outline of a tree whose top lies at the given depth. -/
def outline (depth : Nat) : Node → Outline
  | root children => ⟨depth, .root⟩ :: outlineAll (depth + 1) children
  | sect name ratio children => ⟨depth, .sect name ratio⟩ :: outlineAll (depth + 1) children
  | group children => ⟨depth, .group⟩ :: outlineAll (depth + 1) children
  | row text => [⟨depth, .row text⟩]

def outlineAll (depth : Nat) : List Node → Outline
  | [] => []
  | t :: ts => outline depth t ++ outlineAll depth ts

end

end Node

namespace Outline

open Node

theorem takeWhile_map_depth (d e : Nat) (h : e < d) (ts : List Node) (rest : List (Nat × Node))
    (hr : ∀ x ∈ rest.head?, x.1 ≤ e) :
    (ts.map (d, ·) ++ rest).takeWhile (e < ·.1) = ts.map (d, ·) := by
  induction ts with
  | nil =>
    cases rest with
    | nil => rfl
    | cons x rest =>
      have : x.1 ≤ e := hr x (by simp)
      simp only [List.map_nil, List.nil_append, List.takeWhile_cons]
      simp [Nat.not_lt.2 this]
  | cons t ts ih => simp [h, ih]

theorem dropWhile_map_depth (d e : Nat) (h : e < d) (ts : List Node) (rest : List (Nat × Node))
    (hr : ∀ x ∈ rest.head?, x.1 ≤ e) :
    (ts.map (d, ·) ++ rest).dropWhile (e < ·.1) = rest := by
  induction ts with
  | nil =>
    cases rest with
    | nil => rfl
    | cons x rest =>
      have : x.1 ≤ e := hr x (by simp)
      simp only [List.map_nil, List.nil_append, List.dropWhile_cons]
      simp [Nat.not_lt.2 this]
  | cons t ts ih => simp [h, ih]

/-- Putting an item before its own trees and then others gives the item's tree and the others. -/
theorem attach_map_append (d : Nat) (item : Item) (ts : List Node) (rest : List (Nat × Node))
    (hr : ∀ x ∈ rest.head?, x.1 ≤ d) :
    attach ⟨d, item⟩ (ts.map (d + 1, ·) ++ rest) = (d, item.toNode ts) :: rest := by
  have h := Nat.lt_succ_self d
  simp only [attach, takeWhile_map_depth _ _ h ts rest hr, dropWhile_map_depth _ _ h ts rest hr,
    List.map_map]
  congr
  exact List.map_id ts

mutual

theorem foldr_attach_outline (d : Nat) (t : Node) (rest : List (Nat × Node))
    (hr : ∀ x ∈ rest.head?, x.1 ≤ d) : (t.outline d).foldr attach rest = (d, t) :: rest := by
  have hs : ∀ x ∈ rest.head?, x.1 ≤ d + 1 := fun x hx => Nat.le_succ_of_le (hr x hx)
  cases t with
  | root ts =>
    rw [outline, List.foldr_cons, foldr_attach_outlineAll _ ts rest hs,
      attach_map_append d _ ts rest hr]
    rfl
  | sect name ratio ts =>
    rw [outline, List.foldr_cons, foldr_attach_outlineAll _ ts rest hs,
      attach_map_append d _ ts rest hr]
    rfl
  | group ts =>
    rw [outline, List.foldr_cons, foldr_attach_outlineAll _ ts rest hs,
      attach_map_append d _ ts rest hr]
    rfl
  | row text => exact attach_map_append d (.row text) [] rest hr

theorem foldr_attach_outlineAll (d : Nat) (ts : List Node) (rest : List (Nat × Node))
    (hr : ∀ x ∈ rest.head?, x.1 ≤ d) :
    (outlineAll d ts).foldr attach rest = ts.map (d, ·) ++ rest := by
  cases ts with
  | nil => rfl
  | cons t ts =>
    rw [outlineAll, List.foldr_append, foldr_attach_outlineAll d ts rest hr]
    rw [foldr_attach_outline d t _ ?_]
    · rfl
    · cases ts with
      | nil => exact hr
      | cons u ts => simp

end

theorem forest_outlineAll (d : Nat) (ts : List Node) : forest (outlineAll d ts) = ts := by
  rw [forest, trees, foldr_attach_outlineAll d ts [] (by simp), List.append_nil, List.map_map]
  exact List.map_id ts

end Outline

end Wireframe
