import Wireframe.Text.Basic

/-! Joined texts and lists: the first piece, and each further piece after what stands
between neighbours (`intercalate_cons`). -/

namespace Wireframe

theorem intercalate_cons {α : Type} (sep first : List α) (more : List (List α)) :
    sep.intercalate (first :: more) = first ++ more.flatMap (sep ++ ·) := by
  induction more generalizing first with
  | nil => simp
  | cons next more ih =>
    rw [List.intercalate_cons_cons, ih, List.flatMap_cons, List.append_assoc, List.append_assoc]

/-- What is in joined pieces is in one of them or in what stands between them. -/
theorem mem_of_mem_intercalate {α : Type} {sep : List α} {pieces : List (List α)} {a : α}
    (h : a ∈ sep.intercalate pieces) : a ∈ sep ∨ a ∈ pieces.flatten := by
  cases pieces with
  | nil => simp at h
  | cons first more =>
    rw [intercalate_cons, List.mem_append, List.mem_flatMap] at h
    rw [List.flatten_cons, List.mem_append, List.mem_flatten]
    rcases h with h | ⟨piece, hp, h⟩
    · exact .inr (.inl h)
    · rcases List.mem_append.1 h with h | h
      · exact .inl h
      · exact .inr (.inr ⟨piece, hp, h⟩)

namespace Text

@[simp] theorem join_nil (sep : Text) : join sep [] = [] := rfl

theorem join_cons (sep first : Text) (more : List Text) :
    join sep (first :: more) = first ++ more.flatMap (sep ++ ·) :=
  intercalate_cons sep first more

@[simp] theorem join_singleton (sep piece : Text) : join sep [piece] = piece := by
  rw [join_cons, List.flatMap_nil, List.append_nil]

theorem join_cons_append (sep first next : Text) (more : List Text) :
    join sep (first :: next :: more) = first ++ (sep ++ join sep (next :: more)) := by
  rw [join_cons, join_cons, List.flatMap_cons, List.append_assoc]

theorem join_cons_cons (c : Char) (first next : Text) (more : List Text) :
    join [c] (first :: next :: more) = first ++ c :: join [c] (next :: more) :=
  join_cons_append [c] first next more

theorem join_append (sep : Text) {first more : List Text} (hf : first ≠ []) (hm : more ≠ []) :
    join sep (first ++ more) = join sep first ++ (sep ++ join sep more) := by
  obtain ⟨piece, first, rfl⟩ := List.exists_cons_of_ne_nil hf
  obtain ⟨next, more, rfl⟩ := List.exists_cons_of_ne_nil hm
  rw [List.cons_append, join_cons, join_cons, join_cons, List.flatMap_append, List.flatMap_cons]
  simp only [List.append_assoc]

/-- What stands before and after a piece in joined pieces. -/
theorem join_append_cons (sep : Text) (before : List Text) (piece : Text) (after : List Text) :
    join sep (before ++ piece :: after) =
      before.flatMap (· ++ sep) ++ piece ++ after.flatMap (sep ++ ·) := by
  induction before with
  | nil => rw [List.nil_append, join_cons, List.flatMap_nil, List.nil_append]
  | cons first before ih =>
    have hfirst := join_append sep (List.cons_ne_nil first [])
      (List.append_ne_nil_of_right_ne_nil before (List.cons_ne_nil piece after))
    rw [join_singleton, List.singleton_append, ih] at hfirst
    rw [List.cons_append, hfirst, List.flatMap_cons]
    simp only [List.append_assoc]

/-- Joining lists of pieces one by one, and then what they give, is joining all. -/
theorem join_map_join (sep : Text) {lists : List (List Text)} (h : ∀ list ∈ lists, list ≠ []) :
    join sep (lists.map (join sep)) = join sep lists.flatten := by
  induction lists with
  | nil => rfl
  | cons list lists ih =>
    obtain ⟨hlist, hlists⟩ := List.forall_mem_cons.1 h
    by_cases hne : lists = []
    · subst hne
      simp
    · have hmap : lists.map (join sep) ≠ [] := fun hnil => hne (List.map_eq_nil_iff.1 hnil)
      have hflat : lists.flatten ≠ [] := by
        obtain ⟨next, more, rfl⟩ := List.exists_cons_of_ne_nil hne
        exact List.append_ne_nil_of_left_ne_nil (hlists next List.mem_cons_self) _
      have hfirst := join_append sep (List.cons_ne_nil (join sep list) []) hmap
      rw [join_singleton, List.singleton_append] at hfirst
      rw [List.map_cons, hfirst, ih hlists, List.flatten_cons, join_append sep hlist hflat]

/-- Characters are replaced in joined pieces as in the pieces and in what stands between them. -/
theorem flatMap_join (g : Char → Text) (sep : Text) (pieces : List Text) :
    (join sep pieces).flatMap g = join (sep.flatMap g) (pieces.map fun t => t.flatMap g) := by
  cases pieces with
  | nil => rfl
  | cons first more =>
    rw [join_cons, List.flatMap_append, List.flatMap_assoc, List.map_cons, join_cons,
      List.flatMap_map]
    simp only [List.flatMap_append]

theorem mem_of_mem_join {sep : Text} {pieces : List Text} {c : Char} (h : c ∈ join sep pieces) :
    c ∈ sep ∨ c ∈ pieces.flatten :=
  mem_of_mem_intercalate h

end Text

end Wireframe
