import Wireframe.Command.Plan
import Wireframe.File.Store

/-!
A run of the command on a store of files. It ends with an exit code: 0 where all is done, 1 where
the job failed, and 2 where the arguments were misused. Saving stops at the first file that cannot
be written and keeps those written before it.
-/

namespace Wireframe.Command

/-! ### Outcomes -/

structure Outcome where
  code : Nat
  stdout : Text
  stderr : Text
  deriving DecidableEq

/-- The text of lines, each with a line feed. -/
def printed (lines : List Text) : Text := lines.flatMap (· ++ ['\n'])

def versionLine : Text := "wiretext 0.1.0".toList

def usage : List Text :=
  ["Compile WireText wireframes to ASCII layouts and HTML".toList,
    [],
    "Usage: wiretext [OPTIONS] [FILES]...".toList,
    [],
    "Options:".toList,
    "  -f, --format <FORMAT>    ascii, html or json".toList,
    "  -w, --width <WIDTH>      layout width, 60 at least [env: WIRETEXT_WIDTH]".toList,
    "      --out-dir <OUT_DIR>  directory for the renderings".toList,
    "  -v, --verbose            report what is written".toList,
    "  -h, --help               print this text".toList,
    "  -V, --version            print the version".toList]

def Stop.outcome : Stop → Outcome
  | misuse m => ⟨2, [], "error: ".toList ++ m.message ++ ['\n']⟩
  | version => ⟨0, printed [versionLine], []⟩
  | help => ⟨0, printed usage, []⟩

def Failure.outcome (e : Failure) : Outcome := ⟨1, [], e.report⟩

/-! ### Runs -/

/-- Writes renderings to their targets, as far as that can be done. -/
def saveAll (s : Store) : List (Text × Text) → Option Failure × Store
  | [] => (none, s)
  | (path, rendering) :: more =>
    match s.write path (fileBytes rendering) with
    | .error fault => (some (.notWritten path fault), s)
    | .ok s' => saveAll s' more

/-- The outcome of an action, and the store after it. -/
def act (s : Store) : Action → Outcome × Store
  | .print renderings => (⟨0, printed renderings, []⟩, s)
  | .save directory renderings =>
    match s.createAll directory with
    | .error fault => ((Failure.notCreated directory fault).outcome, s)
    | .ok s' =>
      match saveAll s' renderings with
      | (some e, after) => (e.outcome, after)
      | (none, after) => (⟨0, [], []⟩, after)

/-- The outcome of a job, and the store after it. -/
def perform (job : Job) (input : ByteArray) (s : Store) : Outcome × Store :=
  match plan job (.ok input) s.read with
  | .error e => (e.outcome, s)
  | .ok action => act s action

/-- The outcome of the command with these arguments, and the store after it. -/
def run (arguments : List Text) (environment : Option Text) (input : ByteArray) (s : Store) :
    Outcome × Store :=
  match readJob arguments environment with
  | .error stop => (stop.outcome, s)
  | .ok job => perform job input s

end Wireframe.Command
