import Wireframe.File.Fault
import Wireframe.Render

/-!
The rendering of a file. A file cannot be rendered where it cannot be read as text or where its text
is no source (`renderFile`); the message of either error starts with the path of the file.
-/

namespace Wireframe

inductive FileError where
  | unreadable (path : Text) (fault : Fault)
  | invalid (path : Text) (error : Source.ParseError)
  deriving DecidableEq

namespace FileError

def path : FileError → Text
  | unreadable path _ => path
  | invalid path _ => path

/-- What is wrong, without the path. -/
def cause : FileError → Text
  | unreadable _ fault => fault.message
  | invalid _ error => error.message

def message (e : FileError) : Text := e.path ++ ": ".toList ++ e.cause

end FileError

/-- The rendering of the source in the file at a path, where `read` gives the bytes of a file. -/
def renderFile (options : Options) (read : Text → Except Fault ByteArray) (path : Text) :
    Except FileError Text :=
  match (read path).bind Text.decode with
  | .error fault => .error (.unreadable path fault)
  | .ok source => (Source.render options source).mapError (.invalid path)

/-- The bytes of the file that keeps a rendering: the rendering and a line feed. -/
def fileBytes (rendering : Text) : ByteArray := Text.encode (rendering ++ ['\n'])

end Wireframe
