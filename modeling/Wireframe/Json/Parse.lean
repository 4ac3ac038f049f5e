import Wireframe.Json.Token

/-!
Parsing JSON. The tokens are taken in one after another by a machine that keeps the containers
still open, the innermost first (`State`, `State.next?`). Lists and objects may be open to a depth
of 127, and a text is one value with nothing after it.
-/

namespace Wireframe.Json

/-- How many lists and objects may be open at once. -/
def maxDepth : Nat := 127

/-- An open container that waits for a value: the items or members before it, the last first. -/
inductive Frame where
  | items (before : List Json)
  | members (before : List (Text × Json)) (key : Text)

/-- What may come next. -/
inductive State where
  /-- A value for the innermost container. -/
  | value (frames : List Frame)
  /-- The first item of a list, or its end. -/
  | firstItem (frames : List Frame)
  /-- A key of an object with the members before it; if there are none, also its end. -/
  | key (frames : List Frame) (before : List (Text × Json))
  | colon (frames : List Frame) (before : List (Text × Json)) (key : Text)
  /-- What follows a value. -/
  | after (frames : List Frame) (v : Json)

namespace State

/-- The start of a value. -/
def begin? (frames : List Frame) : Token → Option State
  | .null => some (after frames .null)
  | .bool b => some (after frames (.bool b))
  | .num n => some (after frames (.num n))
  | .str t => some (after frames (.str t))
  | .openArr => if frames.length < maxDepth then some (firstItem frames) else none
  | .openObj => if frames.length < maxDepth then some (key frames []) else none
  | _ => none

/-- The state after one more token. -/
def next? : State → Token → Option State
  | value frames, token => begin? frames token
  | firstItem frames, .closeArr => some (after frames (.arr []))
  | firstItem frames, token => begin? (.items [] :: frames) token
  | key frames [], .closeObj => some (after frames (.obj []))
  | key frames before, .str k => some (colon frames before k)
  | colon frames before k, .colon => some (value (.members before k :: frames))
  | after (.items before :: frames) v, .comma => some (value (.items (v :: before) :: frames))
  | after (.items before :: frames) v, .closeArr => some (after frames (.arr (v :: before).reverse))
  | after (.members before k :: frames) v, .comma => some (key frames ((k, v) :: before))
  | after (.members before k :: frames) v, .closeObj =>
    some (after frames (.obj ((k, v) :: before).reverse))
  | _, _ => none

/-- The state after some tokens. -/
def run? (s : State) (tokens : List Token) : Option State := tokens.foldlM next? s

end State

/-- Reads a text that is one value. -/
def parse? (t : Text) : Option Json :=
  match (tokens? t).bind (State.value []).run? with
  | some (.after [] v) => some v
  | _ => none

end Wireframe.Json
