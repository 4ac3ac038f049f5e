import Wireframe.Proofs.Text.Join
import Wireframe.Proofs.Text.Trim

/-! The ink of a text, what it shows on paper: its characters other than white space, in
their order. The words of a text are its ink (`flatten_words`), and joining texts with
white space leaves their ink as it is (`ink_join`). -/

namespace Wireframe.Text

/-- The characters of a text other than white space. -/
def ink (t : Text) : Text := t.filter (! blank ·)

@[simp] theorem ink_append (s t : Text) : ink (s ++ t) = ink s ++ ink t := List.filter_append ..

theorem ink_cons_of_blank {c : Char} (h : blank c = true) (t : Text) : ink (c :: t) = ink t := by
  simp [ink, h]

theorem ink_cons_of_not_blank {c : Char} (h : blank c = false) (t : Text) :
    ink (c :: t) = c :: ink t := by
  simp [ink, h]

theorem ink_eq_nil_iff {t : Text} : ink t = [] ↔ t.isBlank = true := by
  simp [ink, isBlank]

theorem ink_ink (t : Text) : ink (ink t) = ink t := by
  simp [ink]

/-- Ink is counted in a text or in its ink alone. -/
theorem count_ink {c : Char} (h : blank c = false) (t : Text) : (ink t).count c = t.count c := by
  rw [ink, List.count_filter]
  simp [h]

theorem mem_of_mem_ink {c : Char} {t : Text} (h : c ∈ ink t) : c ∈ t := (List.mem_filter.1 h).1

theorem ink_trimEnd (t : Text) : ink (trimEnd t) = ink t := by
  obtain ⟨blanks, hb, he⟩ := trimEnd_append_blanks t
  have hnone : ink blanks = [] := ink_eq_nil_iff.2 (List.all_eq_true.2 hb)
  calc
    ink (trimEnd t) = ink (trimEnd t ++ blanks) := by rw [ink_append, hnone, List.append_nil]
    _ = ink t := by rw [← he]

theorem ink_of_blanks {t : Text} (h : ∀ c ∈ t, blank c = true) : ink t = [] :=
  ink_eq_nil_iff.2 (List.all_eq_true.2 h)

theorem ink_trim (t : Text) : ink (trim t) = ink t := by
  obtain ⟨before, after, hb, ha, he⟩ := exists_blanks_trim t
  calc
    ink (trim t) = ink (before ++ trim t ++ after) := by
      rw [ink_append, ink_append, ink_of_blanks hb, ink_of_blanks ha, List.nil_append,
        List.append_nil]
    _ = ink t := by rw [← he]

/-- A trimmed text starts as its ink does. -/
theorem head?_ink {t : Text} (h : ∀ c ∈ t.head?, blank c = false) : (ink t).head? = t.head? := by
  cases t with
  | nil => rfl
  | cons c t => rw [ink_cons_of_not_blank (h c rfl), List.head?_cons, List.head?_cons]

/-- A trimmed text ends as its ink does. -/
theorem getLast?_ink {t : Text} (h : ∀ c ∈ t.getLast?, blank c = false) :
    (ink t).getLast? = t.getLast? := by
  have hreverse : (ink t.reverse).head? = t.reverse.head? := head?_ink (by simpa using h)
  rwa [ink, List.filter_reverse, List.head?_reverse, List.head?_reverse] at hreverse

/-- Characters may be replaced by texts of the same ink. -/
theorem ink_flatMap {f : Char → Text} (h : ∀ c, ink (f c) = ink [c]) (t : Text) :
    ink (t.flatMap f) = ink t := by
  induction t with
  | nil => rfl
  | cons c t ih => rw [List.flatMap_cons, ink_append, h, ih, ← ink_append, List.singleton_append]

theorem flatten_splitBy_blank (t : Text) : (splitBy blank t).flatten = ink t := by
  induction t with
  | nil => rfl
  | cons c t ih =>
    cases hc : blank c with
    | true => simp [splitBy, hc, ih, ink_cons_of_blank hc]
    | false => simp [splitBy, hc, ih, ink_cons_of_not_blank hc]

/-- The words of a text are its ink. -/
theorem flatten_words (t : Text) : (words t).flatten = ink t := by
  rw [words, List.flatten_filter_not_isEmpty, flatten_splitBy_blank]

/-- White space between pieces adds no ink. -/
theorem ink_join {sep : Text} (hs : isBlank sep = true) (pieces : List Text) :
    ink (join sep pieces) = ink pieces.flatten := by
  have hflat : ∀ more : List Text, ink (more.flatMap (sep ++ ·)) = ink more.flatten := by
    intro more
    induction more with
    | nil => rfl
    | cons piece more ih =>
      rw [List.flatMap_cons, List.flatten_cons, ink_append, ink_append, ink_append,
        ink_eq_nil_iff.2 hs, List.nil_append, ih]
  cases pieces with
  | nil => rfl
  | cons first more => rw [join_cons, List.flatten_cons, ink_append, ink_append, hflat]

theorem ink_squeeze (t : Text) : ink (squeeze t) = ink t := by
  rw [squeeze, ink_join (by decide), flatten_words, ink_ink]

/-- Joining each of some lists of pieces by white space adds no ink. -/
theorem ink_flatten_map_join {sep : Text} (hs : isBlank sep = true) (lists : List (List Text)) :
    ink (lists.map (join sep)).flatten = ink lists.flatten.flatten := by
  induction lists with
  | nil => rfl
  | cons pieces lists ih =>
    rw [List.map_cons, List.flatten_cons, ink_append, ink_join hs, ih, List.flatten_cons,
      List.flatten_append, ink_append]

end Wireframe.Text
