import Wireframe.Source.Outline

/-! Nested outlines. An outline is nested when no entry lies deeper than the entry
before it allows: one level below a section or a group, at most beside a row. The
trees of a nested outline have that outline again (`outlineAll_forest`), so the tree
of a source and the entries of its lines say the same. -/

namespace Wireframe

/-- The depth down to which the entry after an item may lie. -/
def Item.inner (depth : Nat) : Item → Nat
  | .row _ => depth
  | _ => depth + 1

namespace Outline

open Node

/-- The first entry lies no deeper than `depth`, and each other no deeper than the one before it
allows. -/
def Nested (depth : Nat) : Outline → Prop
  | [] => True
  | e :: o => e.depth ≤ depth ∧ Nested (e.item.inner e.depth) o

theorem Nested.mono {d d' : Nat} {o : Outline} (h : Nested d o) (hd : d ≤ d') : Nested d' o := by
  cases o with
  | nil => trivial
  | cons e o => exact ⟨Nat.le_trans h.1 hd, h.2⟩

/-! ### The tops of the trees -/

theorem mem_dropWhile_deeper {d : Nat} {trees : List (Nat × Node)}
    (h : trees.Pairwise fun x y => y.1 ≤ x.1) :
    ∀ x ∈ trees.dropWhile (d < ·.1), x.1 ≤ d := by
  induction trees with
  | nil => simp
  | cons y trees ih =>
    rw [List.pairwise_cons] at h
    by_cases hy : d < y.1
    · simpa [hy] using ih h.2
    · intro x hx
      simp only [hy, decide_false, Bool.false_eq_true, not_false_eq_true,
        List.dropWhile_cons_of_neg, List.mem_cons] at hx
      rcases hx with rfl | hx
      · omega
      · have := h.1 x hx
        omega

/-- The tops of the trees of an outline never lie deeper than those before them. -/
theorem pairwise_trees (o : Outline) : (trees o).Pairwise fun x y => y.1 ≤ x.1 := by
  induction o with
  | nil => exact List.Pairwise.nil
  | cons e o ih =>
    change (attach e (trees o)).Pairwise _
    rw [attach, List.pairwise_cons]
    exact ⟨mem_dropWhile_deeper ih, ih.sublist (List.dropWhile_sublist _)⟩

theorem depth_le_of_mem_trees {d : Nat} {o : Outline} (h : Nested d o) :
    ∀ x ∈ trees o, x.1 ≤ d := by
  cases o with
  | nil => simp [trees]
  | cons e o =>
    intro x hx
    have hp := pairwise_trees (e :: o)
    change x ∈ attach e (trees o) at hx
    change (attach e (trees o)).Pairwise _ at hp
    rw [attach, List.mem_cons] at hx
    rw [attach, List.pairwise_cons] at hp
    rcases hx with rfl | hx
    · exact h.1
    · exact Nat.le_trans (hp.1 x hx) h.1

/-! ### The outline of the trees -/

theorem outlineAll_map_snd {d : Nat} {trees : List (Nat × Node)} (h : ∀ x ∈ trees, x.1 = d) :
    outlineAll d (trees.map (·.2)) = trees.flatMap fun x => x.2.outline x.1 := by
  induction trees with
  | nil => rfl
  | cons x trees ih =>
    rw [List.map_cons, outlineAll, List.flatMap_cons, ih fun y hy => h y (by simp [hy]),
      h x (by simp)]

theorem outline_toNode (d : Nat) (item : Item) (ts : List Node)
    (h : ∀ text, item = .row text → ts = []) :
    (item.toNode ts).outline d = ⟨d, item⟩ :: outlineAll (d + 1) ts := by
  cases item with
  | row text =>
    rw [h text rfl]
    rfl
  | _ => rfl

/-- The trees of a nested outline have its entries. -/
theorem flatMap_outline_trees {d : Nat} {o : Outline} (h : Nested d o) :
    (trees o).flatMap (fun x => x.2.outline x.1) = o := by
  induction o generalizing d with
  | nil => rfl
  | cons e o ih =>
    have hle := depth_le_of_mem_trees h.2
    have hdeep : ∀ x ∈ (trees o).takeWhile (e.depth < ·.1), e.depth < x.1 := by
      intro x hx
      simpa using List.all_eq_true.1 List.all_takeWhile x hx
    have hmem : ∀ x ∈ (trees o).takeWhile (e.depth < ·.1), x ∈ trees o :=
      fun x hx => (List.takeWhile_sublist _).mem hx
    have hrow : ∀ text, e.item = .row text →
        ((trees o).takeWhile (e.depth < ·.1)).map (·.2) = [] := by
      intro text ht
      rw [List.map_eq_nil_iff, List.eq_nil_iff_forall_not_mem]
      intro x hx
      have h1 := hdeep x hx
      have h2 := hle x (hmem x hx)
      rw [ht, Item.inner] at h2
      omega
    have hone : ∀ x ∈ (trees o).takeWhile (e.depth < ·.1), x.1 = e.depth + 1 := by
      intro x hx
      have h1 := hdeep x hx
      have h2 : x.1 ≤ e.depth + 1 := by
        refine Nat.le_trans (hle x (hmem x hx)) ?_
        cases e.item <;> simp [Item.inner]
      omega
    change (attach e (trees o)).flatMap _ = _
    rw [attach, List.flatMap_cons, outline_toNode _ _ _ hrow, outlineAll_map_snd hone,
      List.cons_append, ← List.flatMap_append, List.takeWhile_append_dropWhile, ih h.2]

/-- The outline of the trees of a nested outline is that outline. -/
theorem outlineAll_forest {o : Outline} (h : Nested 0 o) : outlineAll 0 (forest o) = o := by
  rw [forest, outlineAll_map_snd fun x hx => Nat.le_zero.1 (depth_le_of_mem_trees h x hx)]
  exact flatMap_outline_trees h

end Outline

/-! ### The items of an outline -/

namespace Node

open Outline

mutual

theorem map_item_outline (d : Nat) (t : Node) : (t.outline d).map (·.item) = t.items := by
  cases t <;> simp [outline, items, map_item_outlineAll]

theorem map_item_outlineAll (d : Nat) (ts : List Node) :
    (outlineAll d ts).map (·.item) = itemsAll ts := by
  cases ts with
  | nil => rfl
  | cons t ts => simp [outlineAll, itemsAll, map_item_outline d t, map_item_outlineAll d ts]

end

end Node

end Wireframe
