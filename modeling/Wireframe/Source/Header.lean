import Wireframe.Node
import Wireframe.Text.Digit

/-!
Section headers. A header is an equals sign and a name, or an equals sign, a name of one word, white
space and a ratio `n/d` of two positive numbers below 2^32. What fits the second form only in part
is a name as a whole. `Ratio.read?` reads exactly the ratios in the second form.
-/

namespace Wireframe

/-- A positive number of one machine word. -/
def readPositive? (t : Text) : Option UInt32 :=
  (Text.readNat? t).bind fun n => if 0 < n ∧ n < UInt32.size then some (UInt32.ofNat n) else none

/-- Two positive numbers with a slash between them. -/
def Ratio.read? (t : Text) : Option Ratio :=
  (Text.after? ['/'] (t.dropWhile (· ≠ '/'))).bind fun below =>
    (readPositive? (t.takeWhile (· ≠ '/'))).bind fun n =>
      (readPositive? below).map fun d => ⟨n, d⟩

namespace Source

/-- A name of one word and the ratio after it. -/
def readRatioed? (t : Text) : Option (Text × Ratio) :=
  (Text.afterBlanks? (t.dropWhile (! blank ·))).bind fun ratio =>
    (Ratio.read? ratio).map fun r => (t.takeWhile (! blank ·), r)

/-- The name and the ratio of a section header. -/
def readHeader (t : Text) : Text × Option Ratio :=
  let rest := Text.trim (Text.dropFirst '=' t)
  match readRatioed? rest with
  | some (name, ratio) => (name, some ratio)
  | none => (rest, none)

end Source

end Wireframe
