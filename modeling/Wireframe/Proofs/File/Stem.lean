import Wireframe.File.Path
import Wireframe.Proofs.Text.Split

/-! Stems of paths. The stem is read from the last name that leads anywhere (`LastName`), and it is
that name without its extension (`StemOf`): what stands before the last dot, where this is not the
first character. A path has a stem if it has such a name and the name does not lead up
(`stem?_eq_some_iff`). -/

namespace Wireframe.Path

variable {path name stem : Text}

/-! ### The last name -/

/-- The last name of a path that leads anywhere: names that lead nowhere may follow it. -/
def LastName (path name : Text) : Prop :=
  ∃ above trail : List Text, path = Text.join ['/'] (above ++ name :: trail) ∧
    (∀ n ∈ above ++ name :: trail, '/' ∉ n) ∧ (name ≠ [] ∧ name ≠ ['.']) ∧
      ∀ n ∈ trail, n = [] ∨ n = ['.']

/-- The last element that is kept by a filter has only dropped ones after it. -/
theorem getLast?_filter_eq_some_iff {α : Type} {p : α → Bool} {l : List α} {a : α} :
    (l.filter p).getLast? = some a ↔
      p a = true ∧ ∃ above trail, l = above ++ a :: trail ∧ ∀ b ∈ trail, p b = false := by
  rw [List.getLast?_eq_head?_reverse, ← List.filter_reverse, List.head?_filter,
    List.find?_eq_some_iff_append]
  refine and_congr_right fun _ => ⟨?_, ?_⟩
  · rintro ⟨trail, above, hl, htrail⟩
    refine ⟨above.reverse, trail.reverse, ?_, fun b hb => ?_⟩
    · rw [← List.reverse_reverse l, hl]
      simp
    · simpa using htrail b (List.mem_reverse.1 hb)
  · rintro ⟨above, trail, rfl, htrail⟩
    refine ⟨trail.reverse, above.reverse, by simp, fun b hb => ?_⟩
    simpa using htrail b (List.mem_reverse.1 hb)

theorem stays_eq_true_iff : stays name = true ↔ name = [] ∨ name = ['.'] := decide_eq_true_iff

theorem stays_eq_false_iff : stays name = false ↔ name ≠ [] ∧ name ≠ ['.'] := by
  rw [← Bool.not_eq_true, stays_eq_true_iff, not_or]

theorem slash_notMem_of_mem_names (h : name ∈ names path) : '/' ∉ name := fun hslash =>
  absurd (Text.eq_false_of_mem_splitBy h hslash) (by decide)

theorem lastName_iff :
    LastName path name ↔ ((names path).filter (! stays ·)).getLast? = some name := by
  simp only [getLast?_filter_eq_some_iff, Bool.not_eq_true', Bool.not_eq_false',
    stays_eq_false_iff, stays_eq_true_iff]
  constructor
  · rintro ⟨above, trail, rfl, hslash, hname, htrail⟩
    have hnames : names (Text.join ['/'] (above ++ name :: trail)) = above ++ name :: trail := by
      refine Text.splitBy_join (by decide) (by simp) fun n hn d hd => decide_eq_false ?_
      rintro rfl
      exact hslash n hn hd
    exact ⟨hname, above, trail, hnames, htrail⟩
  · rintro ⟨hname, above, trail, hnames, htrail⟩
    have hpath : Text.join ['/'] (names path) = path := Text.join_splitBy '/' path
    refine ⟨above, trail, by rw [← hnames, hpath], fun n hn => ?_, hname, htrail⟩
    exact slash_notMem_of_mem_names (hnames ▸ hn)

theorem names_of_notMem (h : '/' ∉ name) : names name = [name] :=
  Text.splitBy_of_forall fun c hc => by
    rw [decide_eq_false_iff_not]
    rintro rfl
    exact h hc

/-! ### Extensions -/

/-- The stem of a name. The name has an extension if a dot stands after its first character. -/
inductive StemOf : (name stem : Text) → Prop
  | dotted {stem extension : Text} (hs : stem ≠ []) (he : '.' ∉ extension) :
      StemOf (stem ++ '.' :: extension) stem
  | whole {name : Text} (h : '.' ∉ name.tail) : StemOf name name

theorem cutDot_of_notMem (h : '.' ∉ name.tail) : cutDot name = name := by
  have hdrop : ∀ t : Text, '.' ∉ t → t.reverse.dropWhile (· ≠ '.') = [] := by
    intro t ht
    rw [List.dropWhile_eq_nil_iff]
    intro c hc
    refine decide_eq_true ?_
    rintro rfl
    exact ht (List.mem_reverse.1 hc)
  cases name with
  | nil => rfl
  | cons c rest =>
    have hrest : rest.reverse.dropWhile (· ≠ '.') = [] := hdrop rest h
    by_cases hc : c = '.'
    · subst hc
      rw [cutDot, List.reverse_cons, List.dropWhile_append, hrest]
      rfl
    · have hname : '.' ∉ c :: rest := by simpa [Ne.symm hc] using h
      rw [cutDot, hdrop _ hname]

theorem stemOf_iff : StemOf name stem ↔ cutDot name = stem := by
  constructor
  · rintro (⟨hs, he⟩ | h)
    · exact cutDot_append hs he
    · exact cutDot_of_notMem h
  · rintro rfl
    by_cases h : '.' ∈ name.tail
    · obtain ⟨extension, before, hrev, he⟩ := List.eq_append_cons_of_mem (List.mem_reverse.2 h)
      cases name with
      | nil => contradiction
      | cons c rest =>
        have hrest : rest = before.reverse ++ '.' :: extension.reverse := by
          rw [← List.reverse_reverse rest, show rest.reverse = _ from hrev]
          simp
        have he' : '.' ∉ extension.reverse := by simpa using he
        rw [hrest, ← List.cons_append, cutDot_append (List.cons_ne_nil _ _) he']
        exact .dotted (List.cons_ne_nil _ _) he'
    · rw [cutDot_of_notMem h]
      exact .whole h

/-! ### Stems -/

/-- The stem of a path is that of its last name, unless this leads up. -/
def FileStem (path stem : Text) : Prop :=
  ∃ name, LastName path name ∧ name ≠ ['.', '.'] ∧ StemOf name stem

theorem stem?_eq_some_iff : stem? path = some stem ↔ FileStem path stem := by
  simp only [FileStem, lastName_iff, stemOf_iff, stem?]
  cases h : ((names path).filter (! stays ·)).getLast? with
  | none => simp
  | some name =>
    by_cases hup : name = up
    · simp [hup, up]
    · simp [hup, show name ≠ ['.', '.'] from hup]

theorem subset_of_stemOf (h : StemOf name stem) : stem ⊆ name := by
  cases h with
  | dotted => exact List.subset_append_left _ _
  | whole => exact List.Subset.refl name

theorem slash_notMem_stem (h : stem? path = some stem) : '/' ∉ stem := by
  obtain ⟨name, ⟨above, trail, -, hslash, -⟩, -, hstem⟩ := stem?_eq_some_iff.1 h
  exact fun hc => hslash name (by simp) (subset_of_stemOf hstem hc)

end Wireframe.Path
