import Wireframe.Text.Basic

/-!
The document tree. A tree has four kinds of nodes: the root, named sections with an advisory ratio,
groups, whose children stand side by side, and rows of inline markup. A node without its children
is an item; `Node.items` lists a tree's items in document order, and `Node.count`, the number of
nodes, is the length of that list (`length_items`).
-/

namespace Wireframe

/-- The share of the width that a section asks for. -/
structure Ratio where
  n : UInt32
  d : UInt32
  deriving DecidableEq

/-- A ratio over zero counts as no share at all. -/
def Ratio.value (r : Ratio) : Float := if r.d = 0 then 0.0 else r.n.toFloat / r.d.toFloat

/-- The kinds of nodes. -/
inductive Kind where
  | root
  | sect
  | group
  | row
  deriving DecidableEq

namespace Kind

def all : List Kind := [.root, .sect, .group, .row]

def name : Kind → Text
  | .root => "root".toList
  | .sect => "section".toList
  | .group => "group".toList
  | .row => "row".toList

theorem name_injective {k l : Kind} (h : k.name = l.name) : k = l := by
  revert h
  cases k <;> cases l <;> decide

end Kind

inductive Node where
  | root (children : List Node)
  /-- A section, a named part of the page. -/
  | sect (name : Text) (ratio : Option Ratio) (children : List Node)
  | group (children : List Node)
  | row (text : Text)

/-- A node without its children. -/
inductive Item where
  | root
  | sect (name : Text) (ratio : Option Ratio)
  | group
  | row (text : Text)
  deriving DecidableEq

/-- The node of an item. A row has no children, so none are kept. -/
def Item.toNode (children : List Node) : Item → Node
  | .root => .root children
  | .sect name ratio => .sect name ratio children
  | .group => .group children
  | .row text => .row text

namespace Node

def kind : Node → Kind
  | root _ => .root
  | sect _ _ _ => .sect
  | group _ => .group
  | row _ => .row

def children : Node → List Node
  | root children => children
  | sect _ _ children => children
  | group children => children
  | row _ => []

def item : Node → Item
  | root _ => .root
  | sect name ratio _ => .sect name ratio
  | group _ => .group
  | row text => .row text

@[simp] theorem toNode_item (t : Node) : t.item.toNode t.children = t := by
  cases t <;> rfl

def ratio : Node → Option Ratio
  | sect _ ratio _ => ratio
  | _ => none

mutual

/-- The number of nodes, the top one included. -/
def count : Node → Nat
  | root children => 1 + countAll children
  | sect _ _ children => 1 + countAll children
  | group children => 1 + countAll children
  | row _ => 1

def countAll : List Node → Nat
  | [] => 0
  | t :: ts => count t + countAll ts

end

mutual

/-- The items in document order, each before those of its children. -/
def items : Node → List Item
  | root children => .root :: itemsAll children
  | sect name ratio children => .sect name ratio :: itemsAll children
  | group children => .group :: itemsAll children
  | row text => [.row text]

def itemsAll : List Node → List Item
  | [] => []
  | t :: ts => items t ++ itemsAll ts

end

mutual

theorem length_items (t : Node) : t.items.length = t.count := by
  cases t <;> simp [items, count, length_itemsAll, Nat.add_comm]

theorem length_itemsAll (ts : List Node) : (itemsAll ts).length = countAll ts := by
  cases ts with
  | nil => rfl
  | cons t ts => simp [itemsAll, countAll, length_items t, length_itemsAll ts]

end

end Node

end Wireframe
