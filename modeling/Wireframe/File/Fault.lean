import Wireframe.Text.Basic

/-!
What goes wrong with files, and the text of their bytes. A file holds text where its bytes are valid
UTF-8 (`decode`); a byte order mark is a character of the text.
-/

namespace Wireframe

inductive Fault where
  | notFound
  | alreadyExists
  | notDirectory
  | isDirectory
  | notUtf8
  /-- Anything else, in the words of the system. -/
  | other (message : Text)
  deriving DecidableEq

def Fault.message : Fault → Text
  | notFound => "No such file or directory (os error 2)".toList
  | alreadyExists => "File exists (os error 17)".toList
  | notDirectory => "Not a directory (os error 20)".toList
  | isDirectory => "Is a directory (os error 21)".toList
  | notUtf8 => "stream did not contain valid UTF-8".toList
  | other message => message

namespace Text

/-- The bytes of a text. -/
def encode (t : Text) : ByteArray := (String.ofList t).toUTF8

/-- The text of a list of bytes. -/
def decode (bytes : ByteArray) : Except Fault Text :=
  match String.fromUTF8? bytes with
  | some s => .ok s.toList
  | none => .error .notUtf8

end Text

end Wireframe
