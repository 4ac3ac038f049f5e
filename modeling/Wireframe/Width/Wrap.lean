import Wireframe.Width.Text

/-!
Wrapping. The words of a text are set into lines of a given width: a word that is too wide is first
split into pieces (`splitWord`), then each piece goes on the line begun if it still fits there after
a space, and else begins the next line (`fill`). The main statements: the pieces of a word make up
the word, and the lines hold the pieces in order, none lost.
-/

namespace Wireframe.Text

open Width

/-! ### Pieces -/

/-- The pieces of a word, each as long as its characters, taken one by one, have room; `used`
columns of the first piece are taken already. -/
def splitWord (limit : Nat) : (used : Nat) → (word : Text) → List Text
  | _, [] => [[]]
  | used, c :: word =>
    if limit < used + charWidth c then [] :: growFirst c (splitWord limit (charWidth c) word)
    else growFirst c (splitWord limit (used + charWidth c) word)

theorem flatten_splitWord (limit used : Nat) (word : Text) :
    (splitWord limit used word).flatten = word := by
  induction word generalizing used with
  | nil => rfl
  | cons c word ih =>
    by_cases h : limit < used + charWidth c <;> simp [splitWord, h, ih]

/-- The pieces of the words of a text. -/
def pieces (limit : Nat) (t : Text) : List Text := (words t).flatMap (splitWord limit 0)

/-! ### Lines -/

/-- The pieces by lines, where `used` columns of the first line are taken already. -/
def fill (limit : Nat) : (used : Nat) → (pieces : List Text) → List (List Text)
  | _, [] => [[]]
  | used, p :: ps =>
    if used + 1 + width p ≤ limit then growFirst p (fill limit (used + 1 + width p) ps)
    else [] :: growFirst p (fill limit (width p) ps)

theorem flatten_fill (limit used : Nat) (ps : List Text) : (fill limit used ps).flatten = ps := by
  induction ps generalizing used with
  | nil => rfl
  | cons p ps ih =>
    by_cases h : used + 1 + width p ≤ limit <;> simp [fill, h, ih]

/-- The pieces by lines. -/
def setLines (limit : Nat) : (pieces : List Text) → List (List Text)
  | [] => [[]]
  | p :: ps => growFirst p (fill limit (width p) ps)

theorem flatten_setLines (limit : Nat) (ps : List Text) : (setLines limit ps).flatten = ps := by
  cases ps with
  | nil => rfl
  | cons p ps => simp [setLines, flatten_fill]

/-- The lines of a text set to a width. With room for one column at most, the first character is all
that is shown. -/
def wrap (limit : Nat) (t : Text) : List Text :=
  if limit ≤ 1 then [t.take 1] else (setLines limit (pieces limit t)).map (join [' '])

end Wireframe.Text
