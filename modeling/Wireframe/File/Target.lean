import Wireframe.File.Path
import Wireframe.Render

/-!
Where renderings are written. The target of an input is a file below the output directory, named
after the stem of the input with the extension of the format. Two inputs of one stem have one target
(`target_eq_iff`), which is refused when all targets are planned.
-/

namespace Wireframe

/-- The stem of the target of an input that has none of its own. -/
def fallbackStem : Text := "wiretext".toList

/-- The stem of an input's target. -/
def targetStem (input : Text) : Text := (Path.stem? input).getD fallbackStem

/-- Where the rendering of an input is written. -/
def target (dir : Text) (format : Format) (input : Text) : Text :=
  Path.join dir (targetStem input ++ '.' :: format.extension)

theorem target_eq_iff {dir input input' : Text} {format : Format} :
    target dir format input = target dir format input' ↔ targetStem input = targetStem input' := by
  simp [target, Path.join_inj]

/-- Two inputs with the same target. -/
structure Collision where
  first : Text
  second : Text
  target : Text
  deriving DecidableEq

def Collision.message (c : Collision) : Text :=
  c.first ++ " and ".toList ++ c.second ++ " would both be written to ".toList ++ c.target

/-- The targets of the inputs, none of which may be the target of an earlier one. -/
def targetsAfter (dir : Text) (format : Format) (earlier : List Text) :
    (inputs : List Text) → Except Collision (List Text)
  | [] => .ok []
  | input :: inputs =>
    let path := target dir format input
    match earlier.find? (target dir format · = path) with
    | some first => .error ⟨first, input, path⟩
    | none => (targetsAfter dir format (earlier ++ [input]) inputs).map (path :: ·)

/-- The targets of the inputs, in order, where no two are the same. -/
def targets (dir : Text) (format : Format) (inputs : List Text) : Except Collision (List Text) :=
  targetsAfter dir format [] inputs

end Wireframe
