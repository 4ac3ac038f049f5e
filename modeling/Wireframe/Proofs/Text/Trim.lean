import Mathlib.Data.List.TakeWhile
import Wireframe.Proofs.Text.Join

/-! Trimmed texts and lines. A text is trimmed when neither of its ends is white
space, and it is one line when it holds no line break. Trimming gives a trimmed
text with no new characters and leaves a trimmed text alone, indented or not;
every line of a text is one line, and lines joined by line feeds are read back. -/

namespace Wireframe.Text

/-! ### Trimmed texts -/

/-- No white space at either end. -/
def Trimmed (t : Text) : Prop :=
  (∀ c ∈ t.head?, blank c = false) ∧ ∀ c ∈ t.getLast?, blank c = false

instance (t : Text) : Decidable t.Trimmed :=
  @instDecidableAnd _ _ (Option.decidableForallMem _) (Option.decidableForallMem _)

theorem head?_dropWhile_blank (t : Text) : ∀ c ∈ (t.dropWhile blank).head?, blank c = false := by
  intro c hc
  have h := List.head?_dropWhile_not blank t
  rw [Option.mem_def.1 hc] at h
  exact h

theorem dropWhile_blank_of_head? {t : Text} (h : ∀ c ∈ t.head?, blank c = false) :
    t.dropWhile blank = t := by
  cases t with
  | nil => rfl
  | cons c t =>
    have hc : blank c = false := h c rfl
    simp [hc]

theorem trimStart_ne_nil {t : Text} (h : t.isBlank = false) : trimStart t ≠ [] := by
  intro hnil
  have hall : t.isBlank = true := List.all_eq_true.2 (List.dropWhile_eq_nil_iff.1 hnil)
  rw [hall] at h
  contradiction

theorem trimEnd_of_getLast? {t : Text} (h : ∀ c ∈ t.getLast?, blank c = false) : trimEnd t = t := by
  rw [trimEnd, dropWhile_blank_of_head? (by simpa using h), List.reverse_reverse]

/-- Trimming the end leaves the text up to its last character that is not blank. -/
theorem trimEnd_append_blanks (t : Text) :
    ∃ blanks, (∀ c ∈ blanks, blank c = true) ∧ t = trimEnd t ++ blanks := by
  refine ⟨(t.reverse.takeWhile blank).reverse, fun c hc => ?_, ?_⟩
  · exact List.all_eq_true.1 List.all_takeWhile c (List.mem_reverse.1 hc)
  · rw [trimEnd, ← List.reverse_append, List.takeWhile_append_dropWhile, List.reverse_reverse]

theorem isPrefix_trimEnd (t : Text) : trimEnd t <+: t := by
  obtain ⟨blanks, -, he⟩ := trimEnd_append_blanks t
  exact ⟨blanks, he.symm⟩

theorem trimmed_trim (t : Text) : (trim t).Trimmed := by
  constructor
  · intro c hc
    obtain ⟨blanks, -, he⟩ := trimEnd_append_blanks (trimStart t)
    have hs := head?_dropWhile_blank t
    rw [show t.dropWhile blank = trim t ++ blanks from he] at hs
    exact hs c (by rw [List.head?_append, Option.mem_def.1 hc]; rfl)
  · intro c hc
    rw [trim, trimEnd, List.getLast?_reverse] at hc
    exact head?_dropWhile_blank _ c hc

theorem trim_of_trimmed {t : Text} (h : t.Trimmed) : trim t = t := by
  rw [trim, trimStart, dropWhile_blank_of_head? h.1, trimEnd_of_getLast? h.2]

/-- Blanks in front of a text are trimmed away. -/
theorem trim_blanks_append {blanks : Text} (hb : ∀ c ∈ blanks, blank c = true) (t : Text) :
    trim (blanks ++ t) = trim t := by
  rw [trim, trimStart, List.dropWhile_append_of_pos hb, trim, trimStart]

/-- Blanks after a text are trimmed away. -/
theorem trim_append_blanks {blanks t : Text} (hb : ∀ c ∈ blanks, blank c = true)
    (h : t.isBlank = false) : trim (t ++ blanks) = trim t := by
  have hstart : trimStart (t ++ blanks) = trimStart t ++ blanks := by
    have hne : (t.dropWhile blank).isEmpty = false :=
      List.isEmpty_eq_false_iff.2 (trimStart_ne_nil h)
    rw [trimStart, List.dropWhile_append, hne]
    rfl
  rw [trim, hstart, trimEnd, List.reverse_append,
    List.dropWhile_append_of_pos fun c hc => hb c (List.mem_reverse.1 hc), trim, trimEnd]

theorem trim_append_of_trimmed {blanks t : Text} (hb : ∀ c ∈ blanks, blank c = true)
    (h : t.Trimmed) : trim (blanks ++ t) = t := by
  rw [trim_blanks_append hb, trim_of_trimmed h]

theorem trim_trim (t : Text) : trim (trim t) = trim t := trim_of_trimmed (trimmed_trim t)

/-- A text is its trimmed form with white space around it. -/
theorem exists_blanks_trim (t : Text) : ∃ before after, (∀ c ∈ before, blank c = true) ∧
    (∀ c ∈ after, blank c = true) ∧ t = before ++ trim t ++ after := by
  obtain ⟨after, hafter, he⟩ := trimEnd_append_blanks (trimStart t)
  refine ⟨t.takeWhile blank, after, List.all_eq_true.1 List.all_takeWhile, hafter, ?_⟩
  rw [List.append_assoc, trim, ← he, trimStart, List.takeWhile_append_dropWhile]

/-- White space around a trimmed text is trimmed away. -/
theorem trim_of_between {before t after : Text} (hb : ∀ c ∈ before, blank c = true)
    (ht : t.Trimmed) (ha : ∀ c ∈ after, blank c = true) : trim (before ++ t ++ after) = t := by
  rw [List.append_assoc, trim_blanks_append hb]
  cases t with
  | nil =>
    rw [List.nil_append, ← List.append_nil after, trim_blanks_append ha]
    rfl
  | cons c t =>
    have hc : blank c = false := ht.1 c rfl
    rw [trim_append_blanks ha (by simp [isBlank, hc]), trim_of_trimmed ht]

/-- The trimmed form of a text is what is trimmed of it and has only white space around it. -/
theorem trim_eq_iff {s t : Text} : trim t = s ↔ s.Trimmed ∧ ∃ before after,
    (∀ c ∈ before, blank c = true) ∧ (∀ c ∈ after, blank c = true) ∧ t = before ++ s ++ after := by
  constructor
  · rintro rfl
    exact ⟨trimmed_trim t, exists_blanks_trim t⟩
  · rintro ⟨hs, before, after, hb, ha, rfl⟩
    exact trim_of_between hb hs ha

theorem mem_of_mem_trim {t : Text} {c : Char} (h : c ∈ trim t) : c ∈ t := by
  obtain ⟨blanks, -, he⟩ := trimEnd_append_blanks (trimStart t)
  have hs : c ∈ trimStart t := by
    rw [he]
    exact List.mem_append_left _ h
  exact (List.dropWhile_sublist blank).mem hs

theorem trim_ne_nil {t : Text} (h : t.isBlank = false) : trim t ≠ [] := by
  intro hnil
  obtain ⟨blanks, hb, he⟩ := trimEnd_append_blanks (trimStart t)
  rw [show trimEnd (trimStart t) = [] from hnil, List.nil_append] at he
  obtain ⟨c, rest, hc⟩ := List.exists_cons_of_ne_nil (trimStart_ne_nil h)
  have hstart : blank c = false := head?_dropWhile_blank t c (by rw [← trimStart, hc]; rfl)
  have hblank : blank c = true := hb c (by rw [← he, hc]; exact List.mem_cons_self)
  rw [hblank] at hstart
  contradiction

theorem isBlank_of_trim_ne_nil {t : Text} (h : trim t ≠ []) : t.isBlank = false := by
  apply Bool.eq_false_iff.2
  intro hb
  have hnil : trimStart t = [] := List.dropWhile_eq_nil_iff.2 (List.all_eq_true.1 hb)
  apply h
  rw [trim, hnil]
  rfl

/-! ### Lines -/

/-- No line break in the text. -/
def OneLine (t : Text) : Prop := ∀ c ∈ t, c ≠ '\r' ∧ c ≠ '\n'

instance (t : Text) : Decidable t.OneLine := List.decidableBAll _ t

theorem oneLine_trim {t : Text} (h : t.OneLine) : (trim t).OneLine :=
  fun c hc => h c (mem_of_mem_trim hc)

theorem oneLine_of_not_blank {t : Text} (h : ∀ c ∈ t, blank c = false) : t.OneLine := by
  intro c hc
  have hb := h c hc
  constructor <;> rintro rfl <;> exact absurd hb (by decide)

theorem oneLine_of_mem_growFirst {c : Char} {pieces : List Text} (hc : c ≠ '\r' ∧ c ≠ '\n')
    (h : ∀ piece ∈ pieces, OneLine piece) : ∀ piece ∈ growFirst c pieces, OneLine piece := by
  intro piece hp d hd
  rcases mem_growFirst hp hd with rfl | ⟨q, hq, hdq⟩
  · exact hc
  · exact h q hq d hdq

theorem oneLine_of_mem_lines (t : Text) : ∀ line ∈ lines t, line.OneLine := by
  fun_induction lines t with
  | case1 => simp [OneLine]
  | case2 t ih => simpa [OneLine] using ih
  | case3 c t _ hc ih => simpa [OneLine] using ih
  | case4 c t _ hc ih =>
    rw [not_or] at hc
    exact oneLine_of_mem_growFirst hc ih

theorem lines_cons_of_ne {c : Char} (hc : c ≠ '\r' ∧ c ≠ '\n') (t : Text) :
    lines (c :: t) = growFirst c (lines t) := by
  rw [lines]
  · rw [if_neg (by simp [hc])]
  · rintro _ rfl
    exact absurd rfl hc.1

theorem lines_of_oneLine {t : Text} (h : t.OneLine) : lines t = [t] := by
  induction t with
  | nil => rfl
  | cons c t ih =>
    rw [lines_cons_of_ne (h c (by simp)), ih fun d hd => h d (by simp [hd])]
    rfl

theorem lines_append_of_lines {t u : Text} {rest : List Text} (h : t.OneLine)
    (hu : lines u = [] :: rest) : lines (t ++ u) = t :: rest := by
  induction t with
  | nil => exact hu
  | cons c t ih =>
    rw [List.cons_append, lines_cons_of_ne (h c (by simp)), ih fun d hd => h d (by simp [hd])]
    rfl

theorem lines_append_lineFeed {t : Text} (h : t.OneLine) (rest : Text) :
    lines (t ++ '\n' :: rest) = t :: lines rest := by
  apply lines_append_of_lines h
  rw [lines]
  · simp
  · rintro _ ⟨⟩

/-- Lines joined by line feeds are read back. -/
theorem lines_join {pieces : List Text} (hne : pieces ≠ []) (h : ∀ piece ∈ pieces, piece.OneLine) :
    lines (join ['\n'] pieces) = pieces := by
  induction pieces with
  | nil => contradiction
  | cons piece more ih =>
    cases more with
    | nil => rw [join_singleton, lines_of_oneLine (h piece (by simp))]
    | cons next more =>
      rw [join_cons_cons, lines_append_lineFeed (h piece (by simp)),
        ih (by simp) fun q hq => h q (List.mem_cons_of_mem _ hq)]

end Wireframe.Text
