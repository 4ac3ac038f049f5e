import Wireframe.Width.Character

/-!
Splitting a word at positions. The characters of a word are read one after another, each with the
byte at which it begins. A character that has no room ends the piece begun, unless that piece is
empty. Of the piece begun only its first byte and its columns are kept (`Splitting`), and it is cut
out of the word once it ends (`slice`). The main statement: what is cut out between the bytes at
which two starts of a text end is what the longer one has more (`slice_append`).
-/

namespace Wireframe.Text

open Width

/-! ### Positions -/

/-- The bytes of a text in UTF-8. -/
def byteSize : Text → Nat
  | [] => 0
  | c :: t => c.utf8Size + byteSize t

@[simp] theorem byteSize_append (s t : Text) : byteSize (s ++ t) = byteSize s + byteSize t := by
  induction s with
  | nil => simp [byteSize]
  | cons c s ih => simp [byteSize, ih, Nat.add_assoc]

theorem byteSize_pos {t : Text} (h : t ≠ []) : 0 < byteSize t := by
  cases t with
  | nil => contradiction
  | cons c t =>
    have := c.utf8Size_pos
    simp only [byteSize]
    omega

/-- The characters of a text that begins at the byte `pos`, each with the byte at which it begins. -/
def positions : (pos : Nat) → Text → List (Nat × Char)
  | _, [] => []
  | pos, c :: t => (pos, c) :: positions (pos + c.utf8Size) t

theorem positions_append (pos : Nat) (s t : Text) :
    positions pos (s ++ t) = positions pos s ++ positions (pos + byteSize s) t := by
  induction s generalizing pos with
  | nil => simp [positions, byteSize]
  | cons c s ih => simp [positions, byteSize, ih, Nat.add_assoc]

theorem map_snd_positions (pos : Nat) (t : Text) : (positions pos t).map Prod.snd = t := by
  induction t generalizing pos with
  | nil => rfl
  | cons c t ih => simp [positions, ih]

theorem between_of_mem_positions {pos : Nat} {t : Text} {p : Nat × Char}
    (h : p ∈ positions pos t) : pos ≤ p.1 ∧ p.1 < pos + byteSize t := by
  induction t generalizing pos with
  | nil => simp [positions] at h
  | cons c t ih =>
    have hc := c.utf8Size_pos
    simp only [positions, List.mem_cons] at h
    simp only [byteSize]
    rcases h with rfl | h
    · dsimp only
      omega
    · have := ih h
      omega

/-- Whether a character begins between two bytes, at the first or later and before the second. -/
def beginsBetween (start stop : Nat) (p : Nat × Char) : Bool := decide (start ≤ p.1 ∧ p.1 < stop)

theorem filter_positions_of_outside {start stop pos : Nat} {t : Text}
    (h : pos + byteSize t ≤ start ∨ stop ≤ pos) :
    (positions pos t).filter (beginsBetween start stop) = [] := by
  refine List.filter_eq_nil_iff.2 fun p hp hin => ?_
  have := between_of_mem_positions hp
  have := of_decide_eq_true hin
  omega

theorem filter_positions_self (pos : Nat) (t : Text) :
    (positions pos t).filter (beginsBetween pos (pos + byteSize t)) = positions pos t :=
  List.filter_eq_self.2 fun _ hp => decide_eq_true (between_of_mem_positions hp)

/-- The characters of a text that begin between two bytes. -/
def slice (start stop : Nat) (t : Text) : Text :=
  ((positions 0 t).filter (beginsBetween start stop)).map Prod.snd

theorem slice_append (s piece t : Text) :
    slice (byteSize s) (byteSize s + byteSize piece) (s ++ piece ++ t) = piece := by
  rw [slice, positions_append, positions_append, byteSize_append, Nat.zero_add, Nat.zero_add,
    List.filter_append, List.filter_append, filter_positions_self,
    filter_positions_of_outside (.inl (Nat.le_of_eq (Nat.zero_add _))),
    filter_positions_of_outside (.inr (Nat.le_refl _)), List.nil_append, List.append_nil,
    map_snd_positions]

/-! ### Reading a word -/

/-- The pieces that have ended, the byte at which the piece begun starts, and the columns it
takes. -/
structure Splitting where
  pieces : List Text
  start : Nat
  used : Nat
  deriving DecidableEq

namespace Splitting

/-- Nothing is read. -/
def empty : Splitting := ⟨[], 0, 0⟩

/-- Reads the character at a position of the word. -/
def step (limit : Nat) (word : Text) (s : Splitting) (pos : Nat) (c : Char) : Splitting :=
  if limit < s.used + charWidth c ∧ s.start < pos then
    ⟨s.pieces ++ [slice s.start pos word], pos, charWidth c⟩
  else { s with used := s.used + charWidth c }

def run (limit : Nat) (word : Text) (s : Splitting) (cs : List (Nat × Char)) : Splitting :=
  cs.foldl (fun s p => s.step limit word p.1 p.2) s

theorem run_cons (limit : Nat) (word : Text) (s : Splitting) (p : Nat × Char)
    (cs : List (Nat × Char)) :
    s.run limit word (p :: cs) = (s.step limit word p.1 p.2).run limit word cs :=
  rfl

/-- The pieces of the word. The one begun ends where the word does. -/
def finish (word : Text) (s : Splitting) : List Text :=
  s.pieces ++ [slice s.start (byteSize word) word]

end Splitting

/-- The pieces of a word, found by position. -/
def splitAtPositions (limit : Nat) (word : Text) : List Text :=
  (Splitting.empty.run limit word (positions 0 word)).finish word

end Wireframe.Text
