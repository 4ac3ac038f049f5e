import Wireframe.Proofs.Source.Fault

/-! Reading some of the lines. The lines of a source are read in pieces: `Reads` says what
entries a piece makes and which scopes it leaves open. Pieces that follow one another
read what they read one by one (`reads_append_iff`), and an error is the error of one
line after a piece that is read (`outline_eq_error_iff_reads`). -/

namespace Wireframe.Source

open Outline

/-- Read with the first scopes open, the lines make the entries and leave the last scopes open. -/
inductive Reads : List Scope → List Line → Outline → List Scope → Prop
  | nil (scopes : List Scope) : Reads scopes [] [] scopes
  | cons {scopes mid left : List Scope} {line : Line} {entry : Option Entry} {lines : List Line}
      {o : Outline} (first : place scopes line = .ok (mid, entry)) (rest : Reads mid lines o left) :
      Reads scopes (line :: lines) (entry.toList ++ o) left

variable {scopes left : List Scope} {lines more : List Line} {o : Outline}

theorem reads_nil_iff : Reads scopes [] o left ↔ o = [] ∧ left = scopes := by
  constructor
  · rintro ⟨⟩
    exact ⟨rfl, rfl⟩
  · rintro ⟨rfl, rfl⟩
    exact .nil left

theorem reads_cons_iff {line : Line} :
    Reads scopes (line :: lines) o left ↔
      ∃ mid entry o', place scopes line = .ok (mid, entry) ∧ Reads mid lines o' left ∧
        o = entry.toList ++ o' := by
  constructor
  · intro h
    cases h with
    | cons first rest => exact ⟨_, _, _, first, rest, rfl⟩
  · rintro ⟨mid, entry, o', first, rest, rfl⟩
    exact .cons first rest

/-- Lines are read one piece after the other. -/
theorem reads_append_iff :
    Reads scopes (lines ++ more) o left ↔
      ∃ mid o₁ o₂, Reads scopes lines o₁ mid ∧ Reads mid more o₂ left ∧ o = o₁ ++ o₂ := by
  induction lines generalizing scopes o with
  | nil =>
    constructor
    · intro h
      exact ⟨scopes, [], o, .nil scopes, h, rfl⟩
    · rintro ⟨mid, o₁, o₂, h₁, h₂, rfl⟩
      obtain ⟨rfl, rfl⟩ := reads_nil_iff.1 h₁
      exact h₂
  | cons line lines ih =>
    constructor
    · intro h
      obtain ⟨next, entry, o', first, rest, rfl⟩ := reads_cons_iff.1 h
      obtain ⟨mid, o₁, o₂, h₁, h₂, rfl⟩ := ih.1 rest
      exact ⟨mid, entry.toList ++ o₁, o₂, .cons first h₁, h₂, (List.append_assoc ..).symm⟩
    · rintro ⟨mid, o₁, o₂, h₁, h₂, rfl⟩
      obtain ⟨next, entry, o', first, rest, rfl⟩ := reads_cons_iff.1 h₁
      rw [List.cons_append, List.append_assoc]
      exact .cons first (ih.2 ⟨mid, o', o₂, rest, h₂, rfl⟩)

/-- Lines have an outline exactly when they are read to their end. -/
theorem outline_eq_ok_iff_reads :
    outline scopes lines = .ok o ↔ ∃ left, Reads scopes lines o left := by
  induction lines generalizing scopes o with
  | nil => simp [outline, reads_nil_iff, eq_comm]
  | cons line lines ih =>
    constructor
    · intro h
      obtain ⟨mid, entry, o', first, rest, rfl⟩ := outline_cons_eq_ok h
      obtain ⟨left, rest⟩ := ih.1 rest
      exact ⟨left, .cons first rest⟩
    · rintro ⟨left, h⟩
      obtain ⟨mid, entry, o', first, rest, rfl⟩ := reads_cons_iff.1 h
      rw [outline_cons_of_place first, ih.2 ⟨left, rest⟩]
      rfl

/-- A tree is the tree of a source exactly when it is a root and its outline is read from the
lines. -/
theorem parse_eq_ok_iff_reads {source : Text} {t : Node} :
    parse source = .ok t ↔
      ∃ ts left, t = .root ts ∧ Reads [] (linesOf source) (Node.outlineAll 0 ts) left := by
  rw [parse_eq_ok_iff]
  constructor
  · rintro ⟨ts, rfl, ho⟩
    obtain ⟨left, hread⟩ := outline_eq_ok_iff_reads.1 ho
    exact ⟨ts, left, rfl, hread⟩
  · rintro ⟨ts, left, rfl, hread⟩
    exact ⟨ts, rfl, outline_eq_ok_iff_reads.2 ⟨left, hread⟩⟩

/-- Lines fail exactly when one of them is not placed after those before it are read. -/
theorem outline_eq_error_iff_reads {e : ParseError} :
    outline scopes lines = .error e ↔
      ∃ before line after o mid, lines = before ++ line :: after ∧ Reads scopes before o mid ∧
        place mid line = .error e := by
  induction lines generalizing scopes with
  | nil =>
    refine iff_of_false (by simp [outline]) ?_
    rintro ⟨before, line, after, o, mid, hl, -⟩
    simp at hl
  | cons line lines ih =>
    rw [outline_cons_eq_error_iff]
    constructor
    · rintro (hfail | ⟨next, entry, first, hrest⟩)
      · exact ⟨[], line, lines, [], scopes, rfl, .nil scopes, hfail⟩
      · obtain ⟨before, last, after, o, mid, rfl, hread, hfail⟩ := ih.1 hrest
        exact ⟨line :: before, last, after, entry.toList ++ o, mid, rfl, .cons first hread, hfail⟩
    · rintro ⟨before, last, after, o, mid, hl, hread, hfail⟩
      cases before with
      | nil =>
        obtain ⟨rfl, rfl⟩ := List.cons.inj hl
        obtain ⟨-, rfl⟩ := reads_nil_iff.1 hread
        exact .inl hfail
      | cons head before =>
        obtain ⟨rfl, rfl⟩ := List.cons.inj hl
        obtain ⟨next, entry, o', first, rest, rfl⟩ := reads_cons_iff.1 hread
        exact .inr ⟨next, entry, first, ih.2 ⟨before, last, after, o', mid, rfl, rest, hfail⟩⟩

end Wireframe.Source
