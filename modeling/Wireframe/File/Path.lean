import Wireframe.Text.Basic

/-!
Paths of files. A path is a text of names with slashes between them; empty names and single dots say
nothing, and two dots lead up. The stem of a path is its last name up to the last dot
(`cutDot_append`), where the name is not a way up and the dot is not its first character. A name is
put below a directory with one slash (`join`).
-/

namespace Wireframe.Path

/-- The names between the slashes of a path, empty ones included. -/
def names (path : Text) : List Text := Text.splitBy (· = '/') path

/-- Whether a path starts at the top of all files. -/
def isAbsolute (path : Text) : Bool := path.head? = some '/'

/-- Whether a name leads nowhere else: it is empty or a single dot. -/
def stays (name : Text) : Bool := name = [] ∨ name = ['.']

/-- The name that leads up. -/
def up : Text := ['.', '.']

/-! ### The stem -/

/-- A name up to its last dot, or the whole name where it has none or only the first character. -/
def cutDot (name : Text) : Text :=
  match name.reverse.dropWhile (· ≠ '.') with
  | _ :: before => if before.isEmpty then name else before.reverse
  | [] => name

theorem cutDot_append {stem suffix : Text} (h : stem ≠ []) (hs : '.' ∉ suffix) :
    cutDot (stem ++ '.' :: suffix) = stem := by
  have hs' : ∀ c ∈ suffix.reverse, decide (c ≠ '.') = true := by
    intro c hc
    simp only [decide_eq_true_eq]
    rintro rfl
    exact hs (List.mem_reverse.1 hc)
  have hd : (stem ++ '.' :: suffix).reverse.dropWhile (· ≠ '.') = '.' :: stem.reverse := by
    rw [show (stem ++ '.' :: suffix).reverse = suffix.reverse ++ '.' :: stem.reverse by simp,
      List.dropWhile_append_of_pos hs', List.dropWhile_cons_of_neg (by simp)]
  rw [cutDot, hd]
  simp [h]

/-- The stem of a path that ends in a name. -/
def stem? (path : Text) : Option Text :=
  match ((names path).filter (! stays ·)).getLast? with
  | some name => if name = up then none else some (cutDot name)
  | none => none

/-! ### Names below a directory -/

/-- The path of a name below a directory. -/
def join (dir name : Text) : Text :=
  if dir = [] ∨ dir.getLast? = some '/' then dir ++ name else dir ++ '/' :: name

theorem join_inj {dir name name' : Text} : join dir name = join dir name' ↔ name = name' := by
  by_cases h : dir = [] ∨ dir.getLast? = some '/' <;> simp [join, h]

end Wireframe.Path
