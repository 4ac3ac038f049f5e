import Wireframe.Text.Basic

/-!
Marked spans in a text. A mark is an opening text, a body of characters of one class and a closing
text (`Mark`); the body is the longest run of its class. `Mark.read?` reads the mark at the start of
a text, `Mark.whole?` a text that is one mark, and `scan` finds the spans of a text from left to
right without overlap. The main statements: what a mark reads is its opening, body and closing in
front of the rest (`Mark.eq_of_read?`), and a scan that finds nothing leaves the text as it is.
-/

namespace Wireframe

/-- A span of text: an opening, at least `least` characters of a class, a closing. -/
structure Mark where
  opening : Text
  body : Char → Bool
  least : Nat := 1
  closing : Text := []

namespace Mark

/-- The body of the mark that starts the text, and what follows the mark. -/
def read? (m : Mark) (t : Text) : Option (Text × Text) :=
  (Text.after? m.opening t).bind fun inner =>
    if (inner.takeWhile m.body).length < m.least then none
    else (Text.after? m.closing (inner.dropWhile m.body)).map fun rest =>
      (inner.takeWhile m.body, rest)

/-- The body of a mark that is the whole text. -/
def whole? (m : Mark) (t : Text) : Option Text :=
  match m.read? t with
  | some (body, []) => some body
  | _ => none

theorem eq_of_read? {m : Mark} {t body rest : Text} (h : m.read? t = some (body, rest)) :
    t = m.opening ++ body ++ m.closing ++ rest := by
  simp only [read?, Option.bind_eq_some_iff] at h
  obtain ⟨inner, ho, h⟩ := h
  split at h
  · contradiction
  · simp only [Option.map_eq_some_iff, Prod.mk.injEq] at h
    obtain ⟨r, hc, rfl, rfl⟩ := h
    rw [Text.after?_eq_some_iff] at ho hc
    rw [ho, List.append_assoc, List.append_assoc, ← hc, List.takeWhile_append_dropWhile]

theorem body_of_read? {m : Mark} {t body rest : Text} (h : m.read? t = some (body, rest)) :
    m.least ≤ body.length ∧ ∀ c ∈ body, m.body c = true := by
  simp only [read?, Option.bind_eq_some_iff] at h
  obtain ⟨inner, -, h⟩ := h
  split at h
  · contradiction
  · next hl =>
    simp only [Option.map_eq_some_iff, Prod.mk.injEq] at h
    obtain ⟨r, -, rfl, -⟩ := h
    exact ⟨Nat.le_of_not_lt hl, fun c hc => by
      simpa using List.all_eq_true.1 (List.all_takeWhile (p := m.body) (l := inner)) c hc⟩

theorem eq_of_whole? {m : Mark} {t body : Text} (h : m.whole? t = some body) :
    t = m.opening ++ body ++ m.closing := by
  unfold whole? at h
  split at h
  · next b hr => simpa [(Option.some.inj h).symm] using eq_of_read? hr
  · contradiction

end Mark

/-! ### Scanning -/

/-- What a scan finds: a character outside all spans, or a span. -/
inductive Piece (α : Type) where
  | plain (c : Char)
  | span (a : α)

/-- Passes over `skip` characters, then looks for spans. -/
def scanAfter {α : Type} (find : Text → Option (α × Text)) : (skip : Nat) → Text → List (Piece α)
  | _, [] => []
  | skip + 1, _ :: t => scanAfter find skip t
  | 0, c :: t =>
    match find (c :: t) with
    | some (a, rest) => .span a :: scanAfter find (t.length - rest.length) t
    | none => .plain c :: scanAfter find 0 t

/-- The spans that `find` reads and the characters between them, from left to right. -/
def scan {α : Type} (find : Text → Option (α × Text)) (t : Text) : List (Piece α) :=
  scanAfter find 0 t

theorem scanAfter_eq_scan_drop {α : Type} (find : Text → Option (α × Text)) (n : Nat) (t : Text) :
    scanAfter find n t = scan find (t.drop n) := by
  induction t generalizing n with
  | nil => cases n <;> simp [scan, scanAfter]
  | cons c t ih =>
    cases n with
    | zero => rfl
    | succ n => simp [scanAfter, ih]

theorem scan_eq_map_plain {α : Type} {find : Text → Option (α × Text)} {t : Text}
    (h : ∀ n, find (t.drop n) = none) : scan find t = t.map .plain := by
  induction t with
  | nil => rfl
  | cons c t ih =>
    have h0 : find (c :: t) = none := h 0
    simp only [scan, scanAfter, h0, List.map_cons, List.cons.injEq, true_and]
    exact ih fun n => h (n + 1)

/-- The text with each span of the mark replaced by what `f` makes of its body. -/
def Mark.replace (m : Mark) (f : Text → Text) (t : Text) : Text :=
  (scan m.read? t).flatMap fun
    | .plain c => [c]
    | .span body => f body

end Wireframe
