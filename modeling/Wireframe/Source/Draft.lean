import Wireframe.Node

/-!
Drafts. While a document is read, its nodes are drafts in one list; a draft is known by its index
and holds the indices of its children. A tree is taken out of the drafts by a loop (`Build.run`)
that has the node whose children are being built at hand, the nodes around it on a stack, and leaves
an empty group in place of each draft it takes. The recursion that the loop stands for is `fold`:
the tree of a draft is its item with the trees of its children, and its subtree is its index with
the subtrees of its children.
-/

namespace Wireframe

/-- An item and the indices of its children. -/
structure Draft where
  item : Item
  children : List Nat
  deriving DecidableEq

/-- What is left of a draft that was taken. -/
def Draft.taken : Draft := ⟨.group, []⟩

/-- The drafts of a document, each known by its index. -/
abbrev Drafts := List Draft

namespace Drafts

/-- The root alone. -/
def start : Drafts := [⟨.root, []⟩]

/-- The drafts with one more after them. -/
def add (ds : Drafts) (item : Item) : Drafts := ds ++ [⟨item, []⟩]

/-- The drafts with one more child at the end of a parent's children. -/
def attach (ds : Drafts) (parent child : Nat) : Drafts :=
  ds.modify parent fun d => { d with children := d.children ++ [child] }

def item? (ds : Drafts) (id : Nat) : Option Item := ds[id]?.map (·.item)

def childrenOf (ds : Drafts) (id : Nat) : List Nat := (ds[id]?.map (·.children)).getD []

/-- All indices that are held as children, draft by draft. -/
def links (ds : Drafts) : List Nat := ds.flatMap (·.children)

theorem length_links_set {ds : Drafts} {id : Nat} {d : Draft} (h : ds[id]? = some d) :
    d.children.length + (links (ds.set id Draft.taken)).length = (links ds).length := by
  induction ds generalizing id with
  | nil => simp at h
  | cons e ds ih =>
    cases id with
    | zero =>
      obtain rfl := Option.some.inj h
      simp [links, Draft.taken]
    | succ id =>
      rw [List.getElem?_cons_succ] at h
      have := ih h
      simp only [links, List.set_cons_succ, List.flatMap_cons, List.length_append] at this ⊢
      omega

/-! ### By recursion -/

/-- The value of a draft from the values of its children. Only children that come after their parent
are asked for theirs, so the recursion ends. -/
def fold {α : Type} (missing : α) (f : Nat → Draft → List α → α) (ds : Drafts) (id : Nat) : α :=
  match _h : ds[id]? with
  | none => missing
  | some d => f id d ((d.children.filter (id < ·)).attach.map fun c => fold missing f ds c.1)
termination_by ds.length - id
decreasing_by
  have hid : id < ds.length := (List.getElem?_eq_some_iff.1 _h).1
  have hc : id < c.1 := of_decide_eq_true (List.mem_filter.1 c.2).2
  omega

/-- The item of a draft with the trees of its children. -/
def tree : Drafts → Nat → Node := fold (.group []) fun _ d ts => d.item.toNode ts

/-- The index of a draft and those of all drafts below it, each before those of its children. -/
def subtree : Drafts → Nat → List Nat := fold [] fun id _ below => id :: below.flatten

end Drafts

/-! ### By a loop -/

/-- A node that was taken out: the indices of its children still to be built, and the trees of those
before them. -/
structure HalfBuilt where
  item : Item
  pending : List Nat
  built : List Node

namespace HalfBuilt

def toNode (h : HalfBuilt) : Node := h.item.toNode h.built

def push (h : HalfBuilt) (t : Node) : HalfBuilt := { h with built := h.built ++ [t] }

end HalfBuilt

/-- Takes a draft out of the drafts. -/
def Drafts.take? (ds : Drafts) (id : Nat) : Option (HalfBuilt × Drafts) :=
  ds[id]?.map fun d => (⟨d.item, d.children, []⟩, ds.set id Draft.taken)

/-- A tree that is being built. -/
structure Build where
  drafts : Drafts
  /-- The indices of the drafts taken so far, in this order. -/
  taken : List Nat
  /-- The node whose children are being built. -/
  current : HalfBuilt
  /-- The nodes around it, the innermost first. -/
  around : List HalfBuilt

namespace Build

/-- What one turn of the loop leads to. -/
inductive Turn where
  /-- A child's index has no draft. -/
  | missing
  | next (b : Build)
  | done (t : Node)

/-- Takes the next child of the current node; without one, goes on with the node around it. -/
def turn (b : Build) : Turn :=
  match b.current.pending with
  | child :: pending =>
    match b.drafts.take? child with
    | none => .missing
    | some (taken, drafts) =>
      .next ⟨drafts, b.taken ++ [child], taken, { b.current with pending } :: b.around⟩
  | [] =>
    match b.around with
    | [] => .done b.current.toNode
    | parent :: around => .next { b with current := parent.push b.current.toNode, around }

/-- The indices of the children still to be built, the next one first. -/
def waiting (b : Build) : List Nat := b.current.pending ++ b.around.flatMap (·.pending)

/-- A bound for the turns that are left. -/
def work (b : Build) : Nat := 2 * (b.waiting ++ b.drafts.links).length + b.around.length

theorem work_turn_lt {b b' : Build} (h : b.turn = .next b') : b'.work < b.work := by
  unfold turn at h
  split at h
  · next child pending hp =>
    split at h
    · contradiction
    · next taken drafts ht =>
      obtain rfl := Turn.next.inj h
      obtain ⟨d, hd, he⟩ := Option.map_eq_some_iff.1 ht
      obtain ⟨rfl, rfl⟩ := Prod.mk.inj he
      have := Drafts.length_links_set hd
      simp only [work, waiting, hp, List.flatMap_cons, List.length_append, List.length_cons]
      omega
  · next hp =>
    split at h
    · contradiction
    · next parent around ha =>
      obtain rfl := Turn.next.inj h
      simp only [work, waiting, hp, ha, HalfBuilt.push, List.flatMap_cons, List.length_append,
        List.length_cons, List.length_nil]
      omega

/-- Turns until the node that was started with is done. -/
def run (b : Build) : Option (Node × Build) :=
  match _h : b.turn with
  | .missing => none
  | .next b' => b'.run
  | .done t => some (t, b)
termination_by b.work
decreasing_by exact work_turn_lt _h

end Build

/-- The tree of a draft, taken out of the drafts, and how the build ended. -/
def Drafts.build? (ds : Drafts) (id : Nat) : Option (Node × Build) :=
  (ds.take? id).bind fun (taken, drafts) => Build.run ⟨drafts, [id], taken, []⟩

end Wireframe
