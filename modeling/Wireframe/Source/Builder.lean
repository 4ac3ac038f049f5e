import Wireframe.Source.Draft
import Wireframe.Source.Parse

/-!
Building drafts from lines. The open sections and groups are kept on a stack of indices, with the
root at its bottom. A section or group becomes a draft when its line is read, but it is held by its
parent only once it is closed and taken off the stack; a row is held at once. At the end all that is
still open is closed, and the tree of the root is built.
-/

namespace Wireframe.Source

/-- A draft that is open, with the indent of its line. -/
structure OpenDraft where
  id : Nat
  indent : Nat
  deriving DecidableEq

/-- The drafts so far and those that are open, the innermost first. -/
structure Builder where
  drafts : Drafts
  stack : List OpenDraft
  deriving DecidableEq

namespace Builder

/-- The root is open. -/
def start : Builder := ⟨Drafts.start, [⟨0, 0⟩]⟩

/-- The index of the innermost open draft. -/
def top (b : Builder) : Nat := (b.stack.head?.map (·.id)).getD 0

def isGroup (b : Builder) (id : Nat) : Bool := b.drafts.item? id = some .group

/-- Whether a draft may have children: it is no row. -/
def acceptsChildren (b : Builder) (id : Nat) : Bool :=
  match b.drafts.item? id with
  | some (.row _) => false
  | _ => true

/-! ### Closing -/

/-- Closes the innermost open draft, unless it is the last, and gives it to the one around it. -/
def pop? (b : Builder) : Option (OpenDraft × Builder) :=
  match b.stack with
  | top :: parent :: stack => some (top, ⟨b.drafts.attach parent.id top.id, parent :: stack⟩)
  | _ => none

theorem length_of_pop? {b b' : Builder} {top : OpenDraft} (h : b.pop? = some (top, b')) :
    b'.stack.length + 1 = b.stack.length := by
  unfold pop? at h
  split at h
  · next hs =>
    obtain ⟨rfl, rfl⟩ := Prod.mk.inj (Option.some.inj h)
    rw [hs]
    rfl
  · contradiction

/-- Closes the drafts that are indented at least so far, up to a group. -/
def collapse (b : Builder) (indent : Nat) : Builder :=
  match _h : b.pop? with
  | none => b
  | some (top, b') => if b.isGroup top.id ∨ top.indent < indent then b else b'.collapse indent
termination_by b.stack.length
decreasing_by
  have := length_of_pop? _h
  omega

/-- Closes the innermost group and all that is open in it. -/
def closeGroup? (b : Builder) : Option Builder :=
  match _h : b.pop? with
  | none => none
  | some (top, b') => if b'.isGroup top.id then some b' else b'.closeGroup?
termination_by b.stack.length
decreasing_by
  have := length_of_pop? _h
  omega

/-- Closes all that is open. -/
def closeAll (b : Builder) : Builder :=
  match _h : b.pop? with
  | none => b
  | some (_, b') => b'.closeAll
termination_by b.stack.length
decreasing_by
  have := length_of_pop? _h
  omega

/-! ### Lines -/

/-- The builder with one more draft, which is open. -/
def opened (b : Builder) (item : Item) (indent : Nat) : Builder :=
  ⟨b.drafts.add item, ⟨b.drafts.length, indent⟩ :: b.stack⟩

/-- Opens a section or a group. The root at the bottom of the stack does not count. -/
def push (b : Builder) (item : Item) (indent number : Nat) : Except ParseError Builder :=
  if maxDepth < b.stack.length then .error (.tooDeep number maxDepth)
  else .ok (b.opened item indent)

/-- Gives an item without children to the innermost open draft. -/
def append (b : Builder) (item : Item) : Builder :=
  { b with drafts := (b.drafts.add item).attach b.top b.drafts.length }

/-- Reads one line. -/
def step (b : Builder) (line : Line) : Except ParseError Builder :=
  match line.form with
  | .close =>
    match b.closeGroup? with
    | some b' => .ok b'
    | none => .error (.unmatchedClose line.number)
  | .item item =>
    let outer := b.collapse line.indent
    if outer.acceptsChildren outer.top then
      match item with
      | .row text => .ok (outer.append (.row text))
      | item => outer.push item line.indent line.number
    else .error (.invalidNesting line.number)

/-- Reads the lines one after another. -/
def run (b : Builder) : List Line → Except ParseError Builder
  | [] => .ok b
  | line :: lines => (b.step line).bind fun b' => b'.run lines

/-- The tree of the root, where each child of a draft is a draft. -/
def finish (b : Builder) : Option Node := (b.closeAll.drafts.build? 0).map (·.1)

/-- Builds the tree of a source. -/
def build (source : Text) : Except ParseError (Option Node) :=
  (start.run (linesOf source)).map finish

end Builder

end Wireframe.Source
