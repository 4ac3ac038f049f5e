import Mathlib.Algebra.Ring.Parity
import Wireframe.Proofs.Row.Cell

/-! Cells of rows that are no table rows. A pipe parts two cells unless an odd number of quotation
marks stands before it in the row. Pieces in which every quote is closed and every pipe stands
inside of one are what their joined text is split into (`splitUnquoted_join`). So the cells that a
row is written from are read back, and of any row nothing is lost but white space and the pipes that
part its cells (`partsCells_widgetCells`). -/

namespace Wireframe.Row

open Text

/-! ### Quotes -/

/-- Whether what follows the text stands inside quotes. -/
def endsQuoted (t : Text) : Bool := decide (Odd (t.count '"'))

theorem endsQuoted_append_singleton (s : Text) (c : Char) :
    endsQuoted (s ++ [c]) = if c = '"' then ! endsQuoted s else endsQuoted s := by
  by_cases hc : c = '"'
  · simp [endsQuoted, hc, Nat.odd_add_one, -Nat.not_odd_iff_even]
  · simp [endsQuoted, hc]

/-- Every quote is closed, and every pipe stands inside of one. -/
structure Sealed (t : Text) : Prop where
  closed : Even (t.count '"')
  pipes : ∀ before after : Text, t = before ++ '|' :: after → Odd (before.count '"')

theorem sealed_iff {t : Text} : Sealed t ↔ Even (t.count '"') ∧
    ∀ i ∈ List.range t.length, t[i]? = some '|' → Odd ((t.take i).count '"') := by
  constructor
  · rintro ⟨hclosed, hpipes⟩
    refine ⟨hclosed, fun i _ hi => ?_⟩
    obtain ⟨hlt, hc⟩ := List.getElem?_eq_some_iff.1 hi
    refine hpipes (t.take i) (t.drop (i + 1)) ?_
    rw [← hc, ← List.drop_eq_getElem_cons hlt, List.take_append_drop]
  · rintro ⟨hclosed, hpipes⟩
    refine ⟨hclosed, ?_⟩
    rintro before after rfl
    simpa using hpipes before.length (by simp) (by simp)

instance (t : Text) : Decidable (Sealed t) := decidable_of_iff _ sealed_iff.symm

theorem Sealed.append {s t : Text} (hs : Sealed s) (ht : Sealed t) : Sealed (s ++ t) where
  closed := by
    rw [List.count_append]
    exact hs.closed.add ht.closed
  pipes before after h := by
    rcases List.append_eq_append_iff.1 h with ⟨more, rfl, hmore⟩ | ⟨more, rfl, hmore⟩
    · rw [List.count_append]
      exact hs.closed.add_odd (ht.pipes more after hmore)
    · cases more with
      | nil => exact absurd (ht.pipes [] after hmore.symm) (by decide)
      | cons c more =>
        obtain ⟨rfl, -⟩ := List.cons.inj hmore
        exact hs.pipes before more rfl

theorem sealed_of_blanks {t : Text} (h : ∀ c ∈ t, blank c = true) : Sealed t where
  closed := by
    rw [List.count_eq_zero_of_not_mem fun hc => absurd (h _ hc) (by decide)]
    exact Even.zero
  pipes before after ht := absurd (h '|' (by simp [ht])) (by decide)

theorem Sealed.padded {cell piece : Text} (h : Sealed cell) (hp : Padded cell piece) :
    Sealed piece := by
  obtain ⟨before, after, hb, ha, rfl⟩ := hp
  exact ((sealed_of_blanks hb).append h).append (sealed_of_blanks ha)

/-! ### Pieces -/

theorem splitUnquoted_ne_nil (quoted : Bool) (t : Text) : splitUnquoted quoted t ≠ [] := by
  cases t with
  | nil => simp [splitUnquoted]
  | cons c t =>
    rw [splitUnquoted]
    split
    · exact List.cons_ne_nil _ _
    · exact growFirst_ne_nil c _

/-- Text in which every pipe is quoted goes to the first piece. What stands before it in the row
counts only by its quotation marks. -/
theorem splitUnquoted_append {s u : Text}
    (hpipes : ∀ before after : Text, u = before ++ '|' :: after → endsQuoted (s ++ before) = true)
    (t : Text) : splitUnquoted (endsQuoted s) (u ++ t) =
      (splitUnquoted (endsQuoted (s ++ u)) t).modifyHead (u ++ ·) := by
  induction u generalizing s with
  | nil => cases h : splitUnquoted (endsQuoted (s ++ [])) t <;> simp_all
  | cons c u ih =>
    have hc : ¬ (c = '|' ∧ endsQuoted s = false) := by
      rintro ⟨rfl, hs⟩
      have hquoted := hpipes [] u rfl
      rw [List.append_nil, hs] at hquoted
      contradiction
    have hu := @ih (s ++ [c]) fun before after h => by
      rw [List.append_assoc]
      exact hpipes (c :: before) after (by rw [h]; rfl)
    rw [List.cons_append, splitUnquoted, if_neg hc, ← endsQuoted_append_singleton, hu,
      List.append_assoc, List.singleton_append]
    obtain ⟨piece, pieces, hp⟩ :=
      List.exists_cons_of_ne_nil (splitUnquoted_ne_nil (endsQuoted (s ++ c :: u)) t)
    rw [hp]
    rfl

theorem Sealed.splitUnquoted_append {u : Text} (h : Sealed u) (t : Text) :
    splitUnquoted false (u ++ t) = (splitUnquoted false t).modifyHead (u ++ ·) := by
  have hend : endsQuoted ([] ++ u) = false := by
    simpa [endsQuoted] using h.closed
  have happend := Row.splitUnquoted_append (s := []) (u := u)
    (fun before after hu => decide_eq_true (h.pipes before after hu)) t
  rwa [hend] at happend

/-- Pieces whose pipes are quoted are what their joined text is split into. -/
theorem splitUnquoted_join {pieces : List Text} (hne : pieces ≠ [])
    (h : ∀ piece ∈ pieces, Sealed piece) : splitUnquoted false (join ['|'] pieces) = pieces := by
  induction pieces with
  | nil => contradiction
  | cons piece more ih =>
    obtain ⟨hpiece, hmore⟩ := List.forall_mem_cons.1 h
    cases more with
    | nil =>
      rw [join_singleton, ← List.append_nil piece, hpiece.splitUnquoted_append, splitUnquoted,
        List.modifyHead_cons]
    | cons next more =>
      rw [join_cons_cons, hpiece.splitUnquoted_append, splitUnquoted, if_pos ⟨rfl, rfl⟩,
        ih (List.cons_ne_nil next more) hmore, List.modifyHead_cons, List.append_nil]

/-! ### Cells -/

/-- A cell of a row that is no table row. -/
structure WidgetCell (t : Text) : Prop extends Sealed t where
  ne_nil : t ≠ []
  trimmed : t.Trimmed

/-- The pieces are the cells in their order, each with white space around it, and any number of
blank texts before, between and after them. -/
inductive Interspersed : List Text → List Text → Prop
  | nil : Interspersed [] []
  | cell {cell piece : Text} {cells pieces : List Text} (hp : Padded cell piece)
      (h : Interspersed cells pieces) : Interspersed (cell :: cells) (piece :: pieces)
  | blank {piece : Text} {cells pieces : List Text} (hb : ∀ c ∈ piece, blank c = true)
      (h : Interspersed cells pieces) : Interspersed cells (piece :: pieces)

variable {cells pieces : List Text}

theorem Interspersed.sealed (h : Interspersed cells pieces)
    (hc : ∀ cell ∈ cells, WidgetCell cell) : ∀ piece ∈ pieces, Sealed piece := by
  induction h with
  | nil => exact List.forall_mem_nil _
  | cell hp _ ih =>
    obtain ⟨hcell, hcells⟩ := List.forall_mem_cons.1 hc
    exact List.forall_mem_cons.2 ⟨hcell.toSealed.padded hp, ih hcells⟩
  | blank hb _ ih => exact List.forall_mem_cons.2 ⟨sealed_of_blanks hb, ih hc⟩

theorem trim_of_blanks {t : Text} (h : ∀ c ∈ t, blank c = true) : t.trim = [] := by
  have htrim := trim_blanks_append h []
  rwa [List.append_nil] at htrim

/-- The pieces that are not blank are the cells. -/
theorem Interspersed.filter_map_trim (h : Interspersed cells pieces)
    (hc : ∀ cell ∈ cells, WidgetCell cell) :
    (pieces.map trim).filter (! ·.isEmpty) = cells := by
  induction h with
  | nil => rfl
  | cell hp _ ih =>
    obtain ⟨hcell, hcells⟩ := List.forall_mem_cons.1 hc
    rw [List.map_cons, trim_of_padded hcell.trimmed hp,
      List.filter_cons_of_pos (by simpa using hcell.ne_nil), ih hcells]
  | blank hb _ ih =>
    rw [List.map_cons, trim_of_blanks hb, List.filter_cons_of_neg (by simp), ih hc]

/-- The text without the pipes that have an even number of quotation marks before them. -/
def withoutPipes (t : Text) : Text :=
  (t.zipIdx.filter fun (c, i) => ¬ (c = '|' ∧ Even ((t.take i).count '"'))).map Prod.fst

/-- What stands before a text counts by its quotation marks, here as in the row as a whole. -/
theorem flatten_splitUnquoted_after (s t : Text) :
    (splitUnquoted (endsQuoted s) t).flatten = ((t.zipIdx s.length).filter fun (c, i) =>
      ¬ (c = '|' ∧ Even (((s ++ t).take i).count '"'))).map Prod.fst := by
  induction t generalizing s with
  | nil => rfl
  | cons c t ih =>
    have hs : (s ++ c :: t).take s.length = s := List.take_left
    have heven : Even (s.count '"') ↔ endsQuoted s = false := by simp [endsQuoted]
    have ht := ih (s ++ [c])
    rw [List.append_assoc, List.singleton_append, List.length_append, List.length_singleton,
      endsQuoted_append_singleton] at ht
    rw [splitUnquoted, List.zipIdx_cons]
    by_cases hc : c = '|' ∧ endsQuoted s = false
    · obtain ⟨rfl, hq⟩ := hc
      rw [if_neg (by decide), hq] at ht
      rw [if_pos ⟨rfl, hq⟩, List.flatten_cons, List.nil_append, ht,
        List.filter_cons_of_neg (by simp [hs, heven, hq])]
    · rw [if_neg hc, flatten_growFirst, ht, List.filter_cons_of_pos, List.map_cons]
      exact decide_eq_true (by rwa [hs, heven])

theorem flatten_splitUnquoted (t : Text) : (splitUnquoted false t).flatten = withoutPipes t :=
  flatten_splitUnquoted_after [] t

theorem ink_flatten_map_trim (pieces : List Text) :
    ink (pieces.map trim).flatten = ink pieces.flatten := by
  induction pieces with
  | nil => rfl
  | cons piece pieces ih =>
    rw [List.map_cons, List.flatten_cons, List.flatten_cons, ink_append, ink_append, ink_trim, ih]

/-- The parts of a text are its cells: those that it is written from, joined by pipes, and for any
text trimmed ones that are not empty and hold all of its ink but the pipes outside of quotes. -/
structure PartsCells (parts : Text → List Text) : Prop where
  written : ∀ cells pieces : List Text, (∀ cell ∈ cells, WidgetCell cell) →
    Interspersed cells pieces → parts (join ['|'] pieces) = cells
  ne_nil : ∀ t, ∀ cell ∈ parts t, cell ≠ []
  trimmed : ∀ t, ∀ cell ∈ parts t, cell.Trimmed
  ink_flatten : ∀ t, ink (parts t).flatten = ink (withoutPipes t)

/-- The cells of a row that is no table row are read back and lose none of its ink. -/
theorem partsCells_widgetCells : PartsCells widgetCells where
  written cells pieces hc h := by
    by_cases hne : pieces = []
    · subst hne
      cases h
      rfl
    · rw [widgetCells, splitUnquoted_join hne (h.sealed hc), h.filter_map_trim hc]
  ne_nil t cell h := by simpa using (List.mem_filter.1 h).2
  trimmed t cell h := by
    obtain ⟨piece, -, rfl⟩ := List.mem_map.1 (List.mem_filter.1 h).1
    exact trimmed_trim piece
  ink_flatten t := by
    rw [widgetCells, List.flatten_filter_not_isEmpty, ink_flatten_map_trim, flatten_splitUnquoted]

/-- Pipes in a quoted label, blank cells and white space beside the pipes. -/
theorem partsCells_widgetCells_sample :
    (∀ cell ∈ ["!\"a|b\"".toList, ['c']], WidgetCell cell) ∧
      Interspersed ["!\"a|b\"".toList, ['c']] [[' '], " !\"a|b\"\t".toList, [], ['c']] ∧
      widgetCells " | !\"a|b\"\t||c".toList = ["!\"a|b\"".toList, ['c']] := by
  have hcells : ∀ cell ∈ ["!\"a|b\"".toList, ['c']], WidgetCell cell := by
    simp only [List.forall_mem_cons]
    exact ⟨⟨by decide, by decide, by decide⟩, ⟨by decide, by decide, by decide⟩,
      List.forall_mem_nil _⟩
  have hspace : ∀ c ∈ [' '], blank c = true := List.forall_mem_singleton.2 (by decide)
  have htab : ∀ c ∈ ['\t'], blank c = true := List.forall_mem_singleton.2 (by decide)
  have hpieces : Interspersed ["!\"a|b\"".toList, ['c']]
      [[' '], " !\"a|b\"\t".toList, [], ['c']] := by
    refine .blank hspace (.cell ⟨[' '], ['\t'], hspace, htab, by decide⟩ ?_)
    exact .blank (List.forall_mem_nil _)
      (.cell ⟨[], [], List.forall_mem_nil _, List.forall_mem_nil _, rfl⟩ .nil)
  have hrow : " | !\"a|b\"\t||c".toList = join ['|'] [[' '], " !\"a|b\"\t".toList, [], ['c']] := by
    decide
  refine ⟨hcells, hpieces, ?_⟩
  rw [hrow]
  exact partsCells_widgetCells.written _ _ hcells hpieces

end Wireframe.Row
