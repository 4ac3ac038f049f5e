import Wireframe.Proofs.Width.Wrap

/-! The fewest lines. The lines of a wrapped text have room, and no other way of setting its pieces
into lines that have room takes fewer (`length_wrap_le`). A piece that stays on the line begun may
leave less room for those after it than a fresh line would, but that costs one line at most
(`length_fill_mono`), the one that the other way has begun. -/

namespace Wireframe.Text

open Width

/-! ### Numbers of lines -/

theorem length_growFirst {α : Type} (a : α) {lists : List (List α)} (h : lists ≠ []) :
    (growFirst a lists).length = lists.length := by
  obtain ⟨first, more, rfl⟩ := List.exists_cons_of_ne_nil h
  rfl

theorem fill_ne_nil (limit used : Nat) (ps : List Text) : fill limit used ps ≠ [] := by
  cases ps with
  | nil => exact List.cons_ne_nil _ _
  | cons p ps =>
    rw [fill]
    split_ifs
    · exact growFirst_ne_nil _ _
    · exact List.cons_ne_nil _ _

theorem length_fill_cons (limit used : Nat) (p : Text) (ps : List Text) :
    (fill limit used (p :: ps)).length =
      if used + 1 + width p ≤ limit then (fill limit (used + 1 + width p) ps).length
      else (fill limit (width p) ps).length + 1 := by
  rw [fill]
  split_ifs
  · exact length_growFirst p (fill_ne_nil _ _ _)
  · rw [List.length_cons, length_growFirst p (fill_ne_nil _ _ _)]

/-- Columns taken on the line begun save no line and cost at most one. -/
theorem length_fill_mono (limit : Nat) {used taken : Nat} (h : used ≤ taken) (ps : List Text) :
    (fill limit used ps).length ≤ (fill limit taken ps).length ∧
      (fill limit taken ps).length ≤ (fill limit used ps).length + 1 := by
  induction ps generalizing used taken with
  | nil => exact ⟨Nat.le_refl 1, Nat.le_succ 1⟩
  | cons p ps ih =>
    rw [length_fill_cons, length_fill_cons]
    by_cases htaken : taken + 1 + width p ≤ limit
    · have hused : used + 1 + width p ≤ limit := by omega
      rw [if_pos hused, if_pos htaken]
      exact ih (by omega)
    · rw [if_neg htaken]
      split_ifs
      · -- the piece stays on the one line and begins the next after the other
        have hfresh := ih (Nat.le_add_left (width p) (used + 1))
        omega
      · omega

/-- Where a piece goes costs one line at most. -/
theorem length_fill_cons_le (limit used : Nat) (p : Text) (ps : List Text) :
    (fill limit used (p :: ps)).length ≤ (fill limit (width p) ps).length + 1 := by
  have hfresh := length_fill_mono limit (Nat.le_add_left (width p) (used + 1)) ps
  rw [length_fill_cons]
  split_ifs <;> omega

/-! ### Other ways of setting pieces -/

/-- A way of setting pieces into lines: the lines hold the pieces in their order, and each has room
for its own with single spaces between them. -/
structure IsSetting (limit : Nat) (ps : List Text) (set : List (List Text)) : Prop where
  flatten_eq : set.flatten = ps
  width_le : ∀ line ∈ set, width (join [' '] line) ≤ limit

section

variable {limit : Nat}

/-- Pieces that have room on the line begun stay there. -/
theorem length_fill_append {used : Nat} {line : List Text} (hs : ∀ p ∈ line, p.Simple)
    (h : used + charSum (join [' '] ([] :: line)) ≤ limit) (ps : List Text) :
    (fill limit used (line ++ ps)).length =
      (fill limit (used + charSum (join [' '] ([] :: line))) ps).length := by
  induction line generalizing used with
  | nil => rfl
  | cons p line ih =>
    obtain ⟨hp, hline⟩ := List.forall_mem_cons.1 hs
    have hsum : used + charSum (join [' '] ([] :: p :: line)) =
        used + 1 + width p + charSum (join [' '] ([] :: line)) := by
      rw [charSum_join_nil_cons, width_of_simple hp]
      omega
    rw [hsum] at h ⊢
    rw [List.cons_append, length_fill_cons, if_pos (by omega), ih hline h]

variable {set : List (List Text)} (hs : ∀ line ∈ set, ∀ p ∈ line, p.Simple)
  (hw : ∀ line ∈ set, charSum (join [' '] line) ≤ limit)
include hs hw

/-- Filling a line begun takes at most that line more than any setting does. -/
theorem length_fill_flatten_le (used : Nat) :
    (fill limit used set.flatten).length ≤ set.length + 1 := by
  induction set generalizing used with
  | nil => exact Nat.le_refl 1
  | cons line set ih =>
    obtain ⟨hline, hset⟩ := List.forall_mem_cons.1 hs
    obtain ⟨hroom, hrooms⟩ := List.forall_mem_cons.1 hw
    have hrest := ih hset hrooms
    cases line with
    | nil => exact (hrest used).trans (Nat.le_succ _)
    | cons p line =>
      obtain ⟨hp, hline⟩ := List.forall_mem_cons.1 hline
      rw [charSum_join_cons, ← width_of_simple hp] at hroom
      calc (fill limit used (p :: (line ++ set.flatten))).length
          ≤ (fill limit (width p) (line ++ set.flatten)).length + 1 :=
            length_fill_cons_le limit used p _
        _ ≤ set.length + 1 + 1 := by
            rw [length_fill_append hline hroom]
            exact Nat.succ_le_succ (hrest _)

theorem length_setLines_flatten_le :
    (setLines limit set.flatten).length ≤ max set.length 1 := by
  induction set with
  | nil => exact Nat.le_refl 1
  | cons line set ih =>
    obtain ⟨hline, hset⟩ := List.forall_mem_cons.1 hs
    obtain ⟨hroom, hrooms⟩ := List.forall_mem_cons.1 hw
    cases line with
    | nil =>
      have hrest : (setLines limit set.flatten).length ≤ max set.length 1 := ih hset hrooms
      rw [List.flatten_cons, List.nil_append, List.length_cons]
      omega
    | cons p line =>
      obtain ⟨hp, hline⟩ := List.forall_mem_cons.1 hline
      rw [charSum_join_cons, ← width_of_simple hp] at hroom
      have hrest := length_fill_flatten_le hset hrooms
      calc (setLines limit (p :: (line ++ set.flatten))).length
          = (fill limit (width p) (line ++ set.flatten)).length :=
            length_growFirst p (fill_ne_nil _ _ _)
        _ ≤ set.length + 1 := by
            rw [length_fill_append hline hroom]
            exact hrest _
        _ ≤ max (set.length + 1) 1 := Nat.le_max_left _ _

end

/-! ### Wrapping -/

theorem width_le_of_mem_wrap {limit : Nat} (hl : 2 ≤ limit) {t line : Text} (ht : t.Simple)
    (h : line ∈ wrap limit t) : width line ≤ limit := by
  rw [width_of_simple (simple_of_mem_wrap ht h)]
  exact charSum_le_of_mem_wrap hl ht h

/-- The lines of a wrapped simple text have room and are a setting of its pieces, and no setting of
them has fewer lines, but that a text without words still takes one. -/
theorem length_wrap_le {limit : Nat} (hl : 2 ≤ limit) {t : Text} (ht : t.Simple) :
    (∀ line ∈ wrap limit t, width line ≤ limit) ∧
      (∃ set, IsSetting limit (pieces limit t) set ∧ wrap limit t = set.map (join [' '])) ∧
      ∀ set, IsSetting limit (pieces limit t) set → (wrap limit t).length ≤ max set.length 1 := by
  have hwidth : ∀ line ∈ wrap limit t, width line ≤ limit :=
    fun _ => width_le_of_mem_wrap hl ht
  refine ⟨hwidth, ⟨setLines limit (pieces limit t), ⟨flatten_setLines _ _, ?_⟩, wrap_eq_map hl t⟩,
    fun set hset => ?_⟩
  · rw [wrap_eq_map hl, List.forall_mem_map] at hwidth
    exact hwidth
  · have hsimple : ∀ line ∈ set, ∀ p ∈ line, p.Simple := fun line hline p hp =>
      ht.mono fun c hc => mem_of_mem_pieces
        (hset.flatten_eq ▸ List.mem_flatten.2 ⟨line, hline, hp⟩) hc
    have hroom : ∀ line ∈ set, charSum (join [' '] line) ≤ limit := by
      intro line hline
      have hjoin : (join [' '] line).Simple := simple_join (by decide) (hsimple line hline)
      exact width_of_simple hjoin ▸ hset.width_le line hline
    rw [wrap_eq_map hl, List.length_map, ← hset.flatten_eq]
    exact length_setLines_flatten_le hsimple hroom

/-- Words that are split, some next to wide characters, in five columns. -/
def sampleWords : Text := "ab 日 語日本 cdefghi j k".toList

theorem length_wrap_le_sampleWords :
    2 ≤ 5 ∧ sampleWords.Simple ∧
      wrap 5 sampleWords =
        ["ab 日", "語日", "本", "cdefg", "hi j", "k"].map String.toList ∧
      IsSetting 5 (pieces 5 sampleWords) ((pieces 5 sampleWords).map ([·])) ∧
      (wrap 5 sampleWords).length ≤ max ((pieces 5 sampleWords).map ([·])).length 1 := by
  have hsimple : sampleWords.Simple := by decide
  have hset : IsSetting 5 (pieces 5 sampleWords) ((pieces 5 sampleWords).map ([·])) := by
    constructor <;> decide +kernel
  exact ⟨by decide, hsimple, by decide +kernel, hset,
    (length_wrap_le (by decide) hsimple).2.2 _ hset⟩

end Wireframe.Text
