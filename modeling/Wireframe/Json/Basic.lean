import Wireframe.Text.Digit

/-!
JSON values. Numbers are kept as they are written, in decimal (`Numeral`), and the members of an
object in their order, keys that occur twice included. A numeral is in range if it stands for a
finite double (`Numeral.inRange`).
-/

namespace Wireframe

/-- A number as it is written; a numeral without a fraction has no fraction digits. -/
structure Numeral where
  negative : Bool
  whole : Text
  fraction : Text
  /-- Whether the exponent is negative, and its digits. -/
  exponent : Option (Bool × Text)
  deriving DecidableEq

namespace Numeral

/-- The numeral of a natural number. -/
def ofNat (n : Nat) : Numeral := ⟨false, Text.ofNat n, [], none⟩

/-- The natural number of a numeral without sign, fraction and exponent. -/
def toNat? (n : Numeral) : Option Nat :=
  if n.negative = false ∧ n.fraction = [] ∧ n.exponent = none then some (Text.value n.whole)
  else none

/-! ### Reading -/

/-- The digits after a point, if there is one. -/
def readFraction? (t : Text) : Option (Text × Text) :=
  match Text.after? ['.'] t with
  | none => some ([], t)
  | some digits =>
    let fraction := digits.takeWhile Char.isDigit
    if fraction = [] then none else some (fraction, digits.dropWhile Char.isDigit)

/-- The sign and the digits after an `e`, if there is one. -/
def readExponent? : Text → Option (Option (Bool × Text))
  | [] => some none
  | c :: t =>
    if c = 'e' ∨ c = 'E' then
      let digits := if t.head? = some '-' then t.tail else Text.dropFirst '+' t
      if digits ≠ [] ∧ digits.all Char.isDigit then some (some (t.head? = some '-', digits))
      else none
    else none

/-- Reads a text that is one numeral. A zero starts no longer row of digits. -/
def read? (t : Text) : Option Numeral :=
  let unsigned := Text.dropFirst '-' t
  let whole := unsigned.takeWhile Char.isDigit
  if whole = [] ∨ (whole.head? = some '0' ∧ whole ≠ ['0']) then none
  else
    (readFraction? (unsigned.dropWhile Char.isDigit)).bind fun (fraction, rest) =>
      (readExponent? rest).map fun exponent => ⟨t.head? = some '-', whole, fraction, exponent⟩

/-- The text of a numeral. -/
def print (n : Numeral) : Text :=
  (if n.negative then ['-'] else []) ++ n.whole ++
    (if n.fraction = [] then [] else '.' :: n.fraction) ++
    match n.exponent with
    | none => []
    | some (negative, digits) => 'e' :: (if negative then ['-'] else []) ++ digits

/-! ### Range -/

/-- Takes in digits before the point while the number stays below 2^64; the rest count as powers of
ten. -/
def takeWhole : (significand : Nat) → Text → Nat × Int
  | s, [] => (s, 0)
  | s, c :: t =>
    let next := 10 * s + (c.toNat - '0'.toNat)
    if next < UInt64.size then takeWhole next t else (s, (c :: t).length)

/-- Takes in digits after the point while the number stays below 2^64; the rest are dropped. -/
def takeFraction : (significand : Nat) → (exponent : Int) → Text → Nat × Int
  | s, e, [] => (s, e)
  | s, e, c :: t =>
    let next := 10 * s + (c.toNat - '0'.toNat)
    if next < UInt64.size then takeFraction next (e - 1) t else (s, e)

/-- The significand below 2^64 and the power of ten that a numeral is taken for. -/
def scaled (n : Numeral) : Nat × Int :=
  let whole := takeWhole 0 n.whole
  let all := takeFraction whole.1 whole.2 n.fraction
  match n.exponent with
  | none => all
  | some (negative, digits) =>
    (all.1, if negative then all.2 - Text.value digits else all.2 + Text.value digits)

/-- Whether the numeral stands for a finite double. A significand below 2^64 always does, so only a
positive power of ten can take the numeral out of range. -/
def inRange (n : Numeral) : Bool :=
  let (s, e) := n.scaled
  s = 0 || e ≤ 0 ||
    (e ≤ 308 && ! (Float.ofNat s * Float.ofScientific 1 false e.toNat).isInf)

end Numeral

/-- A JSON value. -/
inductive Json where
  | null
  | bool (b : Bool)
  | num (n : Numeral)
  | str (t : Text)
  | arr (items : List Json)
  | obj (members : List (Text × Json))

end Wireframe
