import Wireframe.Proofs.Text.Trim

/-! Line ends. A line may be ended by CRLF, CR or LF, and one text may mix them. The lines of a text
are what stands between the ends, where a CR is never an end of its own before an LF
(`lines_eq_iff`). So a CR before an empty line that an LF ends is read as one CRLF and a blank line
may be lost, but the lines that hold something are the same whatever ends them
(`inkedLines_ended`). -/

namespace Wireframe.Text

/-- The lines of a text that are not blank. -/
def inkedLines (t : Text) : List Text := (lines t).filter (! ·.isBlank)

inductive LineEnd where
  | crlf
  | cr
  | lf
  deriving DecidableEq

def LineEnd.text : LineEnd → Text
  | crlf => ['\r', '\n']
  | cr => ['\r']
  | lf => ['\n']

/-- A text and its lines, each but the last with its end. A CR before an LF is not an end of its
own. -/
inductive Lined : (t : Text) → (lines : List Text) → Prop
  | last {line : Text} (h : line.OneLine) : Lined line [line]
  | cons {line rest : Text} {lineEnd : LineEnd} {lines : List Text} (h : line.OneLine)
      (he : lineEnd = .cr → rest.head? ≠ some '\n') (hr : Lined rest lines) :
      Lined (line ++ (lineEnd.text ++ rest)) (line :: lines)

/-- Lines with an end each, and a last line without one. -/
def ended : List (Text × LineEnd) → (last : Text) → Text
  | [], last => last
  | (line, lineEnd) :: more, last => line ++ (lineEnd.text ++ ended more last)

theorem lines_lineFeed (rest : Text) : lines ('\n' :: rest) = [] :: lines rest :=
  lines_append_lineFeed (t := []) (by simp [OneLine]) rest

theorem lines_lineEnd {lineEnd : LineEnd} {rest : Text}
    (h : lineEnd = .cr → rest.head? ≠ some '\n') :
    lines (lineEnd.text ++ rest) = [] :: lines rest := by
  cases lineEnd with
  | crlf => rfl
  | lf => exact lines_lineFeed rest
  | cr =>
    rw [LineEnd.text, List.singleton_append, lines]
    · rfl
    · rintro t - rfl
      exact h rfl rfl

/-- A line end ends an empty line; a CR may take along an LF that ends another empty line. -/
theorem lines_lineEnd_append (lineEnd : LineEnd) (rest : Text) :
    ∃ more, lines (lineEnd.text ++ rest) = [] :: more ∧
      more.filter (! isBlank ·) = inkedLines rest := by
  by_cases h : lineEnd = .cr → rest.head? ≠ some '\n'
  · exact ⟨lines rest, lines_lineEnd h, rfl⟩
  · simp only [not_forall, not_not] at h
    obtain ⟨rfl, hr⟩ := h
    obtain ⟨rest, rfl⟩ := List.head?_eq_some_iff.1 hr
    refine ⟨lines rest, rfl, ?_⟩
    rw [inkedLines, lines_lineFeed]
    rfl

/-! ### Lines and their ends -/

theorem Lined.growFirst {t : Text} {ls : List Text} {c : Char} (hc : c ≠ '\r' ∧ c ≠ '\n')
    (h : Lined t ls) : Lined (c :: t) (growFirst c ls) := by
  have hgrow : ∀ {line : Text}, line.OneLine → OneLine (c :: line) := fun hline =>
    List.forall_mem_cons.2 ⟨hc, hline⟩
  cases h with
  | last hline => exact .last (hgrow hline)
  | cons hline he hr => exact .cons (hgrow hline) he hr

theorem lined_lines (t : Text) : Lined t (lines t) := by
  have hnil : OneLine [] := fun _ hc => absurd hc List.not_mem_nil
  fun_induction lines t with
  | case1 => exact .last hnil
  | case2 t ih => exact @Lined.cons [] t .crlf _ hnil (by simp) ih
  | case3 c t hcrlf hc ih =>
    rcases hc with rfl | rfl
    · refine @Lined.cons [] t .cr _ hnil (fun _ hlf => ?_) ih
      obtain ⟨rest, rfl⟩ := List.head?_eq_some_iff.1 hlf
      exact hcrlf rest rfl rfl
    · exact @Lined.cons [] t .lf _ hnil (by simp) ih
  | case4 c t _ hc ih =>
    rw [not_or] at hc
    exact ih.growFirst hc

theorem lines_eq_iff {t : Text} {ls : List Text} : lines t = ls ↔ Lined t ls := by
  constructor
  · rintro rfl
    exact lined_lines t
  · intro h
    induction h with
    | last h => exact lines_of_oneLine h
    | cons h he hr ih => rw [lines_append_of_lines h (lines_lineEnd he), ih]

/-- The lines that are not blank do not depend on the line ends. -/
theorem inkedLines_ended {pieces : List (Text × LineEnd)} {last : Text}
    (h : ∀ piece ∈ pieces, piece.1.OneLine) (hl : last.OneLine) :
    inkedLines (ended pieces last) = (pieces.map Prod.fst ++ [last]).filter (! isBlank ·) := by
  induction pieces with
  | nil => rw [ended, inkedLines, lines_of_oneLine hl]; rfl
  | cons piece pieces ih =>
    obtain ⟨line, lineEnd⟩ := piece
    obtain ⟨hline, hmore⟩ := List.forall_mem_cons.1 h
    obtain ⟨more, hlines, hinked⟩ := lines_lineEnd_append lineEnd (ended pieces last)
    rw [ended, inkedLines, lines_append_of_lines hline hlines, List.filter_cons, hinked, ih hmore,
      List.map_cons, List.cons_append, List.filter_cons]

end Wireframe.Text
