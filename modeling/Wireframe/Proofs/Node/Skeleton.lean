import Wireframe.Node

/-! The skeleton of a tree: its root, sections and groups with what they hold of each other, the
rows dropped. A section keeps its name and the numerator of its ratio, which is its share of the
space. Labels are exchanged by a map (`Nesting.map`), and no two nestings become one by an injective
exchange (`Nesting.map_injective`). -/

namespace Wireframe

/-! ### Nestings -/

/-- A tree of labels. -/
inductive Nesting (α : Type) where
  | node (label : α) (inner : List (Nesting α))

namespace Nesting

variable {α β : Type}

mutual

/-- The tree with other labels. -/
def map (f : α → β) : Nesting α → Nesting β
  | node a ns => .node (f a) (mapAll f ns)

def mapAll (f : α → β) : List (Nesting α) → List (Nesting β)
  | [] => []
  | n :: ns => map f n :: mapAll f ns

end

theorem mapAll_append (f : α → β) (ms ns : List (Nesting α)) :
    mapAll f (ms ++ ns) = mapAll f ms ++ mapAll f ns := by
  induction ms with
  | nil => rfl
  | cons m ms ih => simp [mapAll, ih]

mutual

theorem map_injective {f : α → β} (hf : Function.Injective f) {m n : Nesting α}
    (h : map f m = map f n) : m = n := by
  match m, n, h with
  | node a ms, node b ns, h =>
    rw [map, map, node.injEq] at h
    rw [hf h.1, mapAll_injective hf h.2]

theorem mapAll_injective {f : α → β} (hf : Function.Injective f) {ms ns : List (Nesting α)}
    (h : mapAll f ms = mapAll f ns) : ms = ns := by
  match ms, ns, h with
  | [], [], _ => rfl
  | m :: ms, n :: ns, h =>
    rw [mapAll, mapAll, List.cons.injEq] at h
    rw [map_injective hf h.1, mapAll_injective hf h.2]

end

end Nesting

/-! ### Skeletons -/

/-- A node that holds others, without them; of a section's ratio only the numerator is kept. -/
inductive Container where
  | root
  | sect (name : Text) (share : Option UInt32)
  | group
  deriving DecidableEq

namespace Node

mutual

/-- The containers of a tree as they are nested; there are none in a row. -/
def skeleton : Node → List (Nesting Container)
  | root children => [.node .root (skeletonAll children)]
  | sect name ratio children => [.node (.sect name (ratio.map Ratio.n)) (skeletonAll children)]
  | group children => [.node .group (skeletonAll children)]
  | row _ => []

def skeletonAll : List Node → List (Nesting Container)
  | [] => []
  | t :: ts => skeleton t ++ skeletonAll ts

end

end Node

end Wireframe
