import Wireframe.Command.Arguments
import Wireframe.File.Rendering
import Wireframe.File.Target

/-!
What a job does, decided before anything is printed or written. The source is the standard input, or
the sources are the files named, which are all rendered first, so that a failure leaves everything
as it was. The renderings are then printed, or saved under the targets of their files, which must be
different from each other.
-/

namespace Wireframe.Command

inductive Failure where
  | file (error : FileError)
  | collision (collision : Collision)
  /-- The standard input cannot be read as text. -/
  | unreadableInput (fault : Fault)
  /-- The standard input is no source. -/
  | invalidInput (error : Source.ParseError)
  /-- The output directory cannot be created. -/
  | notCreated (directory : Text) (fault : Fault)
  /-- A rendering cannot be written. -/
  | notWritten (path : Text) (fault : Fault)
  deriving DecidableEq

namespace Failure

def message : Failure → Text
  | file error => error.message
  | collision c => c.message
  | unreadableInput fault => fault.message
  | invalidInput error => error.message
  | notCreated directory _ => "failed to create ".toList ++ directory
  | notWritten path _ => "failed to write ".toList ++ path

/-- What lies behind a failure, where its message is not all there is to say. -/
def cause? : Failure → Option Text
  | file error => some error.cause
  | notCreated _ fault => some fault.message
  | notWritten _ fault => some fault.message
  | collision _ => none
  | unreadableInput _ => none
  | invalidInput _ => none

/-- The text that reports a failure. -/
def report (e : Failure) : Text :=
  "Error: ".toList ++ e.message ++ ['\n'] ++
    match e.cause? with
    | some cause => "\nCaused by:\n    ".toList ++ cause ++ ['\n']
    | none => []

end Failure

/-- What is left to do when all is rendered. -/
inductive Action where
  /-- Prints renderings. -/
  | print (renderings : List Text)
  /-- Creates a directory and writes renderings to their targets. -/
  | save (directory : Text) (renderings : List (Text × Text))
  deriving DecidableEq

/-- The rendering of the standard input. -/
def renderInput (options : Options) (input : Except Fault ByteArray) : Except Failure Text :=
  match input.bind Text.decode with
  | .error fault => .error (.unreadableInput fault)
  | .ok source => (Source.render options source).mapError .invalidInput

/-- The renderings of files, in order. -/
def renderFiles (options : Options) (read : Text → Except Fault ByteArray) :
    List Text → Except Failure (List Text)
  | [] => .ok []
  | path :: paths =>
    match renderFile options read path with
    | .error e => .error (.file e)
    | .ok rendering => (renderFiles options read paths).map (rendering :: ·)

/-- The action of a job, where `read` gives the bytes of a file. -/
def plan (job : Job) (input : Except Fault ByteArray) (read : Text → Except Fault ByteArray) :
    Except Failure Action :=
  match job.files, job.directory with
  | [], _ => (renderInput job.options input).map fun rendering => .print [rendering]
  | files, none => (renderFiles job.options read files).map .print
  | files, some directory =>
    match targets directory job.options.format files with
    | .error c => .error (.collision c)
    | .ok paths =>
      (renderFiles job.options read files).map fun renderings =>
        .save directory (paths.zip renderings)

end Wireframe.Command
