import Wireframe.Json.Basic
import Wireframe.Json.Quoted

/-!
The tokens of JSON: brackets, braces, commas, colons, the three words, strings and numerals, with
white space of four kinds between them. A numeral is the longest run of the characters that
numerals are made of, and it has to be one and be in range.
-/

namespace Wireframe.Json

inductive Token where
  | openArr
  | closeArr
  | openObj
  | closeObj
  | comma
  | colon
  | null
  | bool (b : Bool)
  | num (n : Numeral)
  | str (t : Text)
  deriving DecidableEq

/-- White space between tokens. -/
def isSpace (c : Char) : Bool := c = ' ' || c = '\t' || c = '\n' || c = '\r'

/-- The characters that numerals are made of. -/
def isNumeralChar (c : Char) : Bool :=
  c.isDigit || c = '-' || c = '+' || c = '.' || c = 'e' || c = 'E'

/-- The token of one character. -/
def Token.ofChar? : Char → Option Token
  | '[' => some openArr
  | ']' => some closeArr
  | '{' => some openObj
  | '}' => some closeObj
  | ',' => some comma
  | ':' => some colon
  | _ => none

/-- The tokens written as words, each with its word. -/
def Token.words : List (Text × Token) :=
  [("null".toList, null), ("true".toList, bool true), ("false".toList, bool false)]

/-- The token at the start of a text, and the number of characters it takes after the first. -/
def Token.read? (t : Text) : Option (Token × Nat) :=
  match t with
  | [] => none
  | '"' :: rest =>
    (upToQuote? rest).bind fun written =>
      (unescape? written).map fun s => (str s, written.length + 1)
  | c :: _ =>
    match ofChar? c with
    | some token => some (token, 0)
    | none =>
      if c = '-' ∨ c.isDigit then
        let written := t.takeWhile isNumeralChar
        (Numeral.read? written).bind fun n =>
          if n.inRange then some (num n, written.length - 1) else none
      else
        (words.find? fun (word, _) => word.isPrefixOf t).map fun (word, token) =>
          (token, word.length - 1)

/-- The tokens after `skip` characters. -/
def tokensAfter? : (skip : Nat) → Text → Option (List Token)
  | _, [] => some []
  | skip + 1, _ :: t => tokensAfter? skip t
  | 0, c :: t =>
    if isSpace c then tokensAfter? 0 t
    else (Token.read? (c :: t)).bind fun (token, more) =>
      (tokensAfter? more t).map (token :: ·)

/-- The tokens of a text. -/
def tokens? (t : Text) : Option (List Token) := tokensAfter? 0 t

end Wireframe.Json
