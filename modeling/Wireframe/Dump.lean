import Wireframe.Json.Parse
import Wireframe.Json.Print
import Wireframe.Node

/-!
Trees as JSON. A node is written as an object with its kind under `type` and its fields after it. It
is read from such an object, whatever the order of the keys and with others among them, or from a
list of its kind and all its fields in order; a ratio likewise. A section's ratio may be null, and
in an object it may be missing. A dump is the text of a tree whose top is a root (`load`).
-/

namespace Wireframe

/-! ### Writing -/

def Ratio.toJson (r : Ratio) : Json :=
  .obj [(['n'], .num (.ofNat r.n.toNat)), (['d'], .num (.ofNat r.d.toNat))]

namespace Node

def typeKey : Text := "type".toList

def nameKey : Text := "name".toList

def ratioKey : Text := "ratio".toList

def childrenKey : Text := "children".toList

def textKey : Text := "text".toList

/-- The member that tells a node's kind. -/
def typeMember (k : Kind) : Text × Json := (typeKey, .str k.name)

mutual

def toJson : Node → Json
  | root children => .obj [typeMember .root, (childrenKey, .arr (toJsons children))]
  | sect name ratio children =>
    .obj [typeMember .sect, (nameKey, .str name), (ratioKey, (ratio.map Ratio.toJson).getD .null),
      (childrenKey, .arr (toJsons children))]
  | group children => .obj [typeMember .group, (childrenKey, .arr (toJsons children))]
  | row text => .obj [typeMember .row, (textKey, .str text)]

def toJsons : List Node → List Json
  | [] => []
  | t :: ts => toJson t :: toJsons ts

end

end Node

/-! ### Reading -/

namespace Json

/-- The value of a key that occurs exactly once. -/
def only? (key : Text) (members : List (Text × Json)) : Option Json :=
  match members.filter (·.1 = key) with
  | [(_, v)] => some v
  | _ => none

/-- The value of a key that occurs at most once, null if it does not occur. -/
def optional? (key : Text) (members : List (Text × Json)) : Option Json :=
  match members.filter (·.1 = key) with
  | [] => some .null
  | [(_, v)] => some v
  | _ => none

def str? : Json → Option Text
  | str t => some t
  | _ => none

/-- A natural number of one machine word, written without sign, fraction and exponent. -/
def word? : Json → Option UInt32
  | num n => n.toNat?.bind fun k => if k < UInt32.size then some (UInt32.ofNat k) else none
  | _ => none

end Json

/-- Reads a ratio from its object or its list. -/
def Ratio.ofJson? : Json → Option Ratio
  | .obj members =>
    ((Json.only? ['n'] members).bind Json.word?).bind fun n =>
      ((Json.only? ['d'] members).bind Json.word?).map fun d => ⟨n, d⟩
  | .arr [n, d] => n.word?.bind fun n => d.word?.map fun d => ⟨n, d⟩
  | _ => none

/-- Reads a ratio or null. -/
def Ratio.ofNullable? : Json → Option (Option Ratio)
  | .null => some none
  | j => (Ratio.ofJson? j).map some

/-- Reads a kind from its name and, in a node that is not the top, also from its place among the
kinds. -/
def Kind.ofJson? (top : Bool) : Json → Option Kind
  | .str t => Kind.all.find? (·.name = t)
  | .num n => if top then none else n.toNat?.bind (Kind.all[·]?)
  | _ => none

namespace Node

mutual

/-- Reads a node from its object or its list. -/
def ofJson? (top : Bool) : Json → Option Node
  | .obj members =>
    ((Json.only? typeKey members).bind (Kind.ofJson? top)).bind fun
      | .root => (childrenOf? members).map root
      | .group => (childrenOf? members).map group
      | .row => ((Json.only? textKey members).bind Json.str?).map row
      | .sect =>
        ((Json.only? nameKey members).bind Json.str?).bind fun name =>
          ((Json.optional? ratioKey members).bind Ratio.ofNullable?).bind fun ratio =>
            (childrenOf? members).map (sect name ratio)
  | .arr (kind :: fields) =>
    (Kind.ofJson? top kind).bind fun
      | .root => (loneChildren? fields).map root
      | .group => (loneChildren? fields).map group
      | .row =>
        match fields with
        | [.str text] => some (row text)
        | _ => none
      | .sect =>
        match fields with
        | .str name :: ratio :: children =>
          (Ratio.ofNullable? ratio).bind fun ratio => (loneChildren? children).map (sect name ratio)
        | _ => none
  | _ => none

/-- Reads children, none of them the top. -/
def ofJsons? : List Json → Option (List Node)
  | [] => some []
  | j :: js => (ofJson? false j).bind fun t => (ofJsons? js).map (t :: ·)

/-- Reads the list of a node's children. -/
def ofArray? : Json → Option (List Node)
  | .arr items => ofJsons? items
  | _ => none

/-- Reads a list of fields of which the children are the only one. -/
def loneChildren? : List Json → Option (List Node)
  | [j] => ofArray? j
  | _ => none

/-- Reads the children of a node among its members. -/
def childrenOf? : List (Text × Json) → Option (List Node)
  | [] => none
  | (k, j) :: members =>
    if k = childrenKey then
      if members.any (·.1 = childrenKey) then none else ofArray? j
    else childrenOf? members

end

end Node

/-! ### Dumps -/

inductive LoadError where
  /-- The text is no JSON, or no tree. -/
  | notTree
  /-- The top of the tree is a node of another kind. -/
  | notRoot (kind : Kind)
  deriving DecidableEq

/-- What is wrong, where the library words it. -/
def LoadError.message : LoadError → Text
  | notTree => "invalid tree dump".toList
  | notRoot kind => "tree dump must start with a root node, found ".toList ++ kind.name

namespace Dump

/-- The dump of a tree. -/
def print (t : Node) : Text := t.toJson.print

/-- The tree of a dump. -/
def load (t : Text) : Except LoadError Node :=
  match (Json.parse? t).bind (Node.ofJson? true) with
  | none => .error .notTree
  | some tree => if tree.kind = .root then .ok tree else .error (.notRoot tree.kind)

end Dump

end Wireframe
