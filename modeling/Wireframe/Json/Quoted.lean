import Wireframe.Text.Basic

/-!
Strings in JSON. A string is written between double quotes; quotes, backslashes and control
characters are escaped in it (`quote`). When it is read, an escape `\uXXXX` stands for a character
or for one half of a pair, and halves that are not paired, raw control characters and unknown
escapes are refused (`unescape?`).
-/

namespace Wireframe.Json

/-! ### Writing -/

def hexDigit (n : Nat) : Char := Nat.digitChar n

/-- What is written for a character between quotes. -/
def escapeChar (c : Char) : Text :=
  if c = '"' then ['\\', '"']
  else if c = '\\' then ['\\', '\\']
  else if c = '\x08' then ['\\', 'b']
  else if c = '\t' then ['\\', 't']
  else if c = '\n' then ['\\', 'n']
  else if c = '\x0c' then ['\\', 'f']
  else if c = '\r' then ['\\', 'r']
  else if c.toNat < 0x20 then
    ['\\', 'u', '0', '0', hexDigit (c.toNat / 16), hexDigit (c.toNat % 16)]
  else [c]

/-- The string of a text, with its quotes. -/
def quote (t : Text) : Text := '"' :: t.flatMap escapeChar ++ ['"']

/-! ### Reading -/

/-- The written characters up to the closing quote; a backslash takes the next character along. -/
def upToQuote? : Text → Option Text
  | [] => none
  | '"' :: _ => some []
  | '\\' :: c :: t => (upToQuote? t).map ('\\' :: c :: ·)
  | c :: t => (upToQuote? t).map (c :: ·)

/-- What the written characters stand for one by one. -/
inductive Symbol where
  | char (c : Char)
  /-- One half of a surrogate pair. -/
  | half (n : Nat)
  deriving DecidableEq

def hexValue? (c : Char) : Option Nat :=
  if c.isDigit then some (c.toNat - '0'.toNat)
  else if 'a' ≤ c ∧ c ≤ 'f' then some (c.toNat - 'a'.toNat + 10)
  else if 'A' ≤ c ∧ c ≤ 'F' then some (c.toNat - 'A'.toNat + 10)
  else none

/-- The number of four hexadecimal digits. -/
def hexValues? (a b c d : Char) : Option Nat :=
  (hexValue? a).bind fun a => (hexValue? b).bind fun b =>
    (hexValue? c).bind fun c => (hexValue? d).map fun d => 4096 * a + 256 * b + 16 * c + d

def symbolOf (n : Nat) : Symbol := if 0xD800 ≤ n ∧ n < 0xE000 then .half n else .char (Char.ofNat n)

/-- The character of an escape of two characters, given the second. -/
def shortEscape? : Char → Option Char
  | '"' => some '"'
  | '\\' => some '\\'
  | '/' => some '/'
  | 'b' => some '\x08'
  | 'f' => some '\x0c'
  | 'n' => some '\n'
  | 'r' => some '\r'
  | 't' => some '\t'
  | _ => none

def symbols? : Text → Option (List Symbol)
  | [] => some []
  | '\\' :: 'u' :: a :: b :: c :: d :: t =>
    (hexValues? a b c d).bind fun n => (symbols? t).map (symbolOf n :: ·)
  | '\\' :: c :: t => (shortEscape? c).bind fun e => (symbols? t).map (.char e :: ·)
  | c :: t =>
    if c = '\\' ∨ c.toNat < 0x20 then none else (symbols? t).map (.char c :: ·)

/-- The character of a surrogate pair. -/
def pair? (high low : Nat) : Option Char :=
  if high < 0xDC00 ∧ 0xDC00 ≤ low then
    some (Char.ofNat (0x10000 + 0x400 * (high - 0xD800) + (low - 0xDC00)))
  else none

/-- Puts the halves together. -/
def join? : List Symbol → Option Text
  | [] => some []
  | .char c :: ps => (join? ps).map (c :: ·)
  | .half high :: .half low :: ps => (pair? high low).bind fun c => (join? ps).map (c :: ·)
  | .half _ :: _ => none

/-- The text that the characters between two quotes stand for. -/
def unescape? (written : Text) : Option Text := (symbols? written).bind join?

end Wireframe.Json
