import Mathlib.Data.List.Forall2
import Wireframe.Proofs.Text.Ink
import Wireframe.Proofs.Text.Split
import Wireframe.Row.Cell

/-! Cells of table rows. Every pipe but the first ends a cell (`length_tableCells`). The cells that a
table row is written from are read back, whatever white space stands around them
(`WrittenFrom.tableCells_eq`), and the cells of a separator are runs of dashes (`isDashes_iff`). -/

namespace Wireframe.Row

open Text

/-! ### Pipes and cells -/

theorem isTableRow_iff {t : Text} :
    isTableRow t = true ↔ t.trim.head? = some '|' ∧ t.trim.getLast? = some '|' := by
  rw [isTableRow, Bool.and_eq_true, decide_eq_true_eq, decide_eq_true_eq]

theorem isTableRow_trim (t : Text) : isTableRow t.trim = isTableRow t := by
  rw [isTableRow, trim_trim, isTableRow]

/-- A table row is a pipe or stands between two. -/
theorem exists_of_isTableRow {t : Text} (h : isTableRow t = true) :
    t.trim = ['|'] ∨ ∃ inner, t.trim = '|' :: (inner ++ ['|']) := by
  obtain ⟨hhead, hlast⟩ := isTableRow_iff.1 h
  obtain ⟨rest, ht⟩ := List.head?_eq_some_iff.1 hhead
  by_cases hrest : rest = []
  · exact .inl (by rw [ht, hrest])
  · rw [ht, List.getLast?_cons_of_ne_nil hrest] at hlast
    obtain ⟨inner, rfl⟩ := List.getLast?_eq_some_iff.1 hlast
    exact .inr ⟨inner, ht⟩

/-- The ink of a text tells whether it is a table row. -/
theorem isTableRow_congr {t u : Text} (h : ink t = ink u) : isTableRow t = isTableRow u := by
  have hink : ∀ s : Text, isTableRow s = true ↔
      (ink s).head? = some '|' ∧ (ink s).getLast? = some '|' := by
    intro s
    have hs := trimmed_trim s
    rw [isTableRow_iff, ← head?_ink hs.1, ← getLast?_ink hs.2, ink_trim]
  rw [Bool.eq_iff_iff, hink, hink, h]

theorem isTableRow_of_ends {t : Text} (hhead : t.head? = some '|')
    (hlast : t.getLast? = some '|') : isTableRow t = true := by
  have ht : t.Trimmed := by
    constructor
    · rw [hhead]
      rintro c ⟨⟩
      decide
    · rw [hlast]
      rintro c ⟨⟩
      decide
  rw [isTableRow_iff, trim_of_trimmed ht]
  exact ⟨hhead, hlast⟩

theorem count_trim {c : Char} (h : blank c = false) (t : Text) : t.trim.count c = t.count c := by
  rw [← count_ink h t.trim, ink_trim, count_ink h]

/-- Every pipe of a table row but the first ends a cell; a lone pipe has one cell. -/
theorem length_tableCells {t : Text} (h : isTableRow t = true) :
    (tableCells t).length = max (t.count '|' - 1) 1 := by
  rw [tableCells, List.length_map, length_splitBy, ← count_trim (by decide) t]
  rcases exists_of_isTableRow h with ht | ⟨inner, ht⟩
  · rw [ht]
    rfl
  · have hinner : dropLast '|' (dropFirst '|' ('|' :: (inner ++ ['|']))) = inner := by
      simp [dropFirst, dropLast]
    have hcount : inner.countP (· = '|') = inner.count '|' := by
      rw [List.count_eq_countP]
      congr 1
    rw [ht, hinner, hcount, List.count_cons_self, List.count_append, List.count_singleton_self]
    omega

/-! ### Written rows -/

/-- A cell with white space around it. -/
def Padded (cell piece : Text) : Prop :=
  ∃ before after, (∀ c ∈ before, blank c = true) ∧ (∀ c ∈ after, blank c = true) ∧
    piece = before ++ cell ++ after

/-- A row that is written from cells: one or more trimmed texts without pipes, with white space
around them, a pipe between neighbours and a pipe at either end. -/
structure WrittenFrom (cells : List Text) (t : Text) : Prop where
  ne_nil : cells ≠ []
  trimmed : ∀ cell ∈ cells, cell.Trimmed
  pipe_notMem : ∀ cell ∈ cells, '|' ∉ cell
  written : ∃ pieces, List.Forall₂ Padded cells pieces ∧ t = '|' :: (join ['|'] pieces ++ ['|'])

theorem pipe_notMem_of_padded {cell piece : Text} (hc : '|' ∉ cell) (h : Padded cell piece) :
    '|' ∉ piece := by
  obtain ⟨before, after, hb, ha, rfl⟩ := h
  have hblanks : ∀ {blanks : Text}, (∀ c ∈ blanks, blank c = true) → '|' ∉ blanks :=
    fun hblank hmem => absurd (hblank '|' hmem) (by decide)
  simp [hblanks hb, hblanks ha, hc]

theorem trim_of_padded {cell piece : Text} (hc : cell.Trimmed) (h : Padded cell piece) :
    trim piece = cell := by
  obtain ⟨before, after, hb, ha, rfl⟩ := h
  exact trim_of_between hb hc ha

theorem map_trim_of_padded {cells pieces : List Text} (h : List.Forall₂ Padded cells pieces)
    (ht : ∀ cell ∈ cells, cell.Trimmed) : pieces.map trim = cells := by
  induction h with
  | nil => rfl
  | cons hp _ ih =>
    obtain ⟨hcell, hcells⟩ := List.forall_mem_cons.1 ht
    rw [List.map_cons, trim_of_padded hcell hp, ih hcells]

theorem forall_pipe_notMem_of_padded {cells pieces : List Text}
    (h : List.Forall₂ Padded cells pieces) (hc : ∀ cell ∈ cells, '|' ∉ cell) :
    ∀ piece ∈ pieces, '|' ∉ piece := by
  induction h with
  | nil => simp
  | cons hp _ ih =>
    obtain ⟨hcell, hcells⟩ := List.forall_mem_cons.1 hc
    exact List.forall_mem_cons.2 ⟨pipe_notMem_of_padded hcell hp, ih hcells⟩

theorem trimmed_between_pipes (inner : Text) : Trimmed ('|' :: (inner ++ ['|'])) := by
  constructor
  · rintro c ⟨⟩
    decide
  · intro c hc
    rw [← List.cons_append, List.getLast?_append_cons] at hc
    cases hc
    decide

/-- The cells that a row is written from are read back. -/
theorem WrittenFrom.tableCells_eq {cells : List Text} {t : Text} (h : WrittenFrom cells t) :
    isTableRow t = true ∧ tableCells t = cells := by
  obtain ⟨hne, htrimmed, hpipe, pieces, hpieces, rfl⟩ := h
  have htrim := trim_of_trimmed (trimmed_between_pipes (join ['|'] pieces))
  have hpiecesne : pieces ≠ [] := by
    rintro rfl
    exact hne (List.forall₂_nil_right_iff.1 hpieces)
  have hsplit : splitBy (· = '|') (join ['|'] pieces) = pieces := by
    refine splitBy_join (by decide) hpiecesne fun piece hp d hd => ?_
    rw [decide_eq_false_iff_not]
    rintro rfl
    exact forall_pipe_notMem_of_padded hpieces hpipe piece hp hd
  have hinner : dropLast '|' (dropFirst '|' ('|' :: (join ['|'] pieces ++ ['|']))) =
      join ['|'] pieces := by
    simp [dropFirst, dropLast]
  constructor
  · rw [isTableRow_iff, htrim, ← List.cons_append, List.getLast?_append_cons]
    exact ⟨rfl, rfl⟩
  · rw [tableCells, htrim, hinner, hsplit, map_trim_of_padded hpieces htrimmed]

/-! ### Separators -/

/-- Three dashes or more, with or without a colon at either end. -/
def DashRun (cell : Text) : Prop :=
  ∃ n, 3 ≤ n ∧ ∃ left ∈ [[], [':']], ∃ right ∈ [[], [':']],
    cell = left ++ List.replicate n '-' ++ right

theorem exists_dropFirst (c : Char) (t : Text) :
    ∃ left ∈ [[], [c]], t = left ++ dropFirst c t := by
  by_cases h : t.head? = some c
  · obtain ⟨rest, rfl⟩ := List.head?_eq_some_iff.1 h
    exact ⟨[c], by simp, by simp [dropFirst]⟩
  · exact ⟨[], by simp, by simp [dropFirst, h]⟩

theorem exists_dropLast (c : Char) (t : Text) :
    ∃ right ∈ [[], [c]], t = dropLast c t ++ right := by
  by_cases h : t.getLast? = some c
  · obtain ⟨rest, rfl⟩ := List.getLast?_eq_some_iff.1 h
    exact ⟨[c], by simp, by simp [dropLast]⟩
  · exact ⟨[], by simp, by simp [dropLast, h]⟩

theorem dropFirst_append {c : Char} {left t : Text} (hl : left ∈ [[], [c]])
    (ht : t.head? ≠ some c) : dropFirst c (left ++ t) = t := by
  simp only [List.mem_cons, List.not_mem_nil, or_false] at hl
  rcases hl with rfl | rfl
  · rw [List.nil_append, dropFirst, if_neg ht]
  · simp [dropFirst]

theorem dropLast_append {c : Char} {t right : Text} (hr : right ∈ [[], [c]])
    (ht : t.getLast? ≠ some c) : dropLast c (t ++ right) = t := by
  simp only [List.mem_cons, List.not_mem_nil, or_false] at hr
  rcases hr with rfl | rfl
  · rw [List.append_nil, dropLast, if_neg ht]
  · simp [dropLast]

theorem isDashes_iff {cell : Text} : isDashes cell = true ↔ DashRun cell := by
  constructor
  · intro h
    simp only [isDashes, Bool.and_eq_true, decide_eq_true_eq, List.all_eq_true] at h
    obtain ⟨hthree, hdashes⟩ := h
    obtain ⟨left, hl, hleft⟩ := exists_dropFirst ':' cell
    obtain ⟨right, hr, hright⟩ := exists_dropLast ':' (dropFirst ':' cell)
    refine ⟨_, hthree, left, hl, right, hr, ?_⟩
    rw [← List.eq_replicate_of_mem hdashes, List.append_assoc, ← hright, ← hleft]
  · rintro ⟨n, hn, left, hl, right, hr, rfl⟩
    obtain ⟨k, rfl⟩ : ∃ k, n = k + 1 := ⟨n - 1, by omega⟩
    have hfirst : (List.replicate (k + 1) '-' ++ right).head? ≠ some ':' := by
      simp [List.replicate_succ]
    have hlast : (List.replicate (k + 1) '-').getLast? ≠ some ':' := by
      simp [List.getLast?_replicate]
    rw [isDashes, List.append_assoc, dropFirst_append hl hfirst, dropLast_append hr hlast]
    simpa using hn

instance (cell : Text) : Decidable (DashRun cell) := decidable_of_iff _ isDashes_iff

theorem isSeparator_iff {cells : List Text} :
    isSeparator cells = true ↔ ∀ cell ∈ cells, DashRun cell := by
  simp only [isSeparator, List.all_eq_true, isDashes_iff]

end Wireframe.Row
