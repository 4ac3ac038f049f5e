import Wireframe.Command.Run

/-!
The command on the files of the system. All that is decided is decided by the plan of the job; here
files are read and written, and the reports printed.
-/

namespace Wireframe.Command

/-- The codes for a directory in place of a file, as they are and negated. -/
def directoryCodes : List UInt32 := [21, 4294967275]

/-- What went wrong, in the terms of the library. -/
def faultOf (e : IO.Error) : Fault :=
  match e with
  | .noFileOrDirectory _ _ _ => .notFound
  | .alreadyExists _ _ _ => .alreadyExists
  | .inappropriateType _ code _ =>
    if directoryCodes.contains code then .isDirectory else .notDirectory
  | e => .other (toString e).toList

/-- The result of an action, or what went wrong. -/
def attempt {α : Type} (action : IO α) : IO (Except Fault α) := do
  match ← action.toBaseIO with
  | .ok a => return .ok a
  | .error e => return .error (faultOf e)

/-- All bytes of a stream after those read so far. -/
partial def readRest (stream : IO.FS.Stream) (bytes : ByteArray) : IO ByteArray := do
  let more ← stream.read 65536
  if more.isEmpty then return bytes else readRest stream (bytes ++ more)

/-- The bytes of the files at the paths. -/
def readFiles (paths : List Text) : IO (List (Text × Except Fault ByteArray)) :=
  paths.mapM fun path => return (path, ← attempt (IO.FS.readBinFile (String.ofList path)))

/-- Prints what there is to print and gives the exit code. -/
def finish (o : Outcome) : IO UInt32 := do
  (← IO.getStdout).putStr (String.ofList o.stdout)
  (← IO.getStderr).putStr (String.ofList o.stderr)
  return UInt32.ofNat o.code

/-- Does what is left to do. -/
def carryOut (verbosity : Nat) : Action → IO UInt32
  | .print renderings => finish ⟨0, printed renderings, []⟩
  | .save directory renderings => do
    match ← attempt (IO.FS.createDirAll (String.ofList directory)) with
    | .error fault => finish (Failure.notCreated directory fault).outcome
    | .ok () =>
      for (path, rendering) in renderings do
        match ← attempt (IO.FS.writeBinFile (String.ofList path) (fileBytes rendering)) with
        | .error fault => return ← finish (Failure.notWritten path fault).outcome
        | .ok () => if verbosity ≠ 0 then IO.eprintln s!"wrote {String.ofList path}"
      return 0

end Wireframe.Command

open Wireframe Wireframe.Command in
/-- The command. -/
def main (arguments : List String) : IO UInt32 := do
  let environment := (← IO.getEnv "WIRETEXT_WIDTH").map String.toList
  match readJob (arguments.map String.toList) environment with
  | .error stop => finish stop.outcome
  | .ok job =>
    let input ← if job.files.isEmpty then attempt (do readRest (← IO.getStdin) .empty)
      else pure (.ok .empty)
    let files ← readFiles job.files
    match plan job input fun path => (files.lookup path).getD (.error .notFound) with
    | .error e => finish e.outcome
    | .ok action => carryOut job.verbosity action
