import Mathlib.Data.List.Induction
import Wireframe.Proofs.Row.Cell
import Wireframe.Proofs.Text.Clean
import Wireframe.Proofs.Text.Mark
import Wireframe.Row.Plain

/-! Pipes of a row's plain form. A replacement keeps the number of pipes, and a text that starts or
ends with a pipe does so after it (`KeepsPipes`), because no mark starts or ends with one. So the
plain form of a table row is a table row with as many cells, and any other plain form has no pipe
(`keepsCells_plain`). -/

namespace Wireframe.Row

open Text

/-! ### Kept pipes -/

/-- The second text has as many pipes as the first, and starts and ends with one if the first does;
it is empty if the first is. -/
structure KeepsPipes (t u : Text) : Prop where
  count_eq : u.count '|' = t.count '|'
  starts : (∀ c ∈ t.head?, c = '|') → u.head? = t.head?
  ends : (∀ c ∈ t.getLast?, c = '|') → u.getLast? = t.getLast?

namespace KeepsPipes

variable {s t u v : Text}

theorem refl (t : Text) : KeepsPipes t t := ⟨rfl, fun _ => rfl, fun _ => rfl⟩

theorem trans (htu : KeepsPipes t u) (huv : KeepsPipes u v) : KeepsPipes t v where
  count_eq := huv.count_eq.trans htu.count_eq
  starts h := by
    have hu := htu.starts h
    exact (huv.starts (hu ▸ h)).trans hu
  ends h := by
    have hu := htu.ends h
    exact (huv.ends (hu ▸ h)).trans hu

theorem append (hst : KeepsPipes s t) (huv : KeepsPipes u v) : KeepsPipes (s ++ u) (t ++ v) where
  count_eq := by rw [List.count_append, List.count_append, hst.count_eq, huv.count_eq]
  starts h := by
    rw [List.head?_append] at h
    have ht : t.head? = s.head? := hst.starts fun c hc => h c (by simp [Option.mem_def.1 hc])
    rw [List.head?_append, List.head?_append, ht]
    cases hs : s.head? with
    | none => exact huv.starts fun c hc => h c (by simpa [hs] using hc)
    | some c => rfl
  ends h := by
    rw [List.getLast?_append] at h
    have hv : v.getLast? = u.getLast? :=
      huv.ends fun c hc => h c (by simp [Option.mem_def.1 hc])
    rw [List.getLast?_append, List.getLast?_append, hv]
    cases hu : u.getLast? with
    | none => exact hst.ends fun c hc => h c (by simpa [hu] using hc)
    | some c => rfl

/-- A text that neither starts nor ends with a pipe keeps its pipes if their number is kept. -/
theorem of_inside (hne : t ≠ []) (hhead : t.head? ≠ some '|') (hlast : t.getLast? ≠ some '|')
    (hcount : u.count '|' = t.count '|') : KeepsPipes t u where
  count_eq := hcount
  starts h := by
    obtain ⟨c, rest, rfl⟩ := List.exists_cons_of_ne_nil hne
    exact absurd (congrArg some (h c rfl)) hhead
  ends h := by
    obtain ⟨c, hc⟩ := Option.ne_none_iff_exists'.1 (mt List.getLast?_eq_none_iff.1 hne)
    exact absurd (hc.trans (congrArg some (h c hc))) hlast

/-- A text without pipes may be replaced by another, and by nothing. -/
theorem of_notMem (ht : '|' ∉ t) (hu : '|' ∉ u) (hnil : t = [] → u = []) : KeepsPipes t u := by
  by_cases hne : t = []
  · rw [hne, hnil hne]
    exact refl []
  · refine of_inside hne (fun h => ht (List.mem_of_head? h))
      (fun h => ht (List.mem_of_getLast? h)) ?_
    rw [List.count_eq_zero_of_not_mem ht, List.count_eq_zero_of_not_mem hu]

/-- What stands before the rest of a text may be dropped if it has no pipe. -/
theorem drop_left (hs : '|' ∉ s) (t : Text) : KeepsPipes (s ++ t) t :=
  (of_notMem hs List.not_mem_nil fun _ => rfl).append (refl t)

end KeepsPipes

/-! ### Marks -/

/-- A mark that neither starts nor ends with a pipe, whatever its body is. -/
structure Unpiped (m : Mark) : Prop where
  ne_nil : m.opening ≠ []
  opening : '|' ∉ m.opening
  closing : '|' ∉ m.closing
  body : m.closing = [] → m.body '|' = false

theorem getLast?_append_ne {s t : Text} (hs : s.getLast? ≠ some '|') (ht : t.getLast? ≠ some '|') :
    (s ++ t).getLast? ≠ some '|' := by
  rw [List.getLast?_append]
  cases h : t.getLast? with
  | none => exact hs
  | some c => rwa [h] at ht

theorem Unpiped.getLast?_ne {m : Mark} (hm : Unpiped m) {body : Text}
    (hbody : ∀ c ∈ body, m.body c = true) :
    (m.opening ++ body ++ m.closing).getLast? ≠ some '|' := by
  have hopening : m.opening.getLast? ≠ some '|' := fun h => hm.opening (List.mem_of_getLast? h)
  by_cases hclosing : m.closing = []
  · have hpipe : '|' ∉ body := fun h => absurd (hbody '|' h) (by simp [hm.body hclosing])
    rw [hclosing, List.append_nil]
    exact getLast?_append_ne hopening fun h => hpipe (List.mem_of_getLast? h)
  · rw [List.getLast?_append_of_ne_nil _ hclosing]
    exact fun h => hm.closing (List.mem_of_getLast? h)

theorem keepsPipes_replace {m : Mark} (hm : Unpiped m) {f : Text → Text}
    (hf : ∀ body, (f body).count '|' = body.count '|') (t : Text) :
    KeepsPipes t (m.replace f t) := by
  refine Mark.replace_induction hm.ne_nil (.refl []) .append (fun c => .refl [c]) ?_ t
  intro body _ hbody
  have hhead : (m.opening ++ body ++ m.closing).head? ≠ some '|' := by
    obtain ⟨c, opening, ho⟩ := List.exists_cons_of_ne_nil hm.ne_nil
    rw [ho]
    exact fun h => hm.opening (ho ▸ List.mem_cons.2 (.inl (Option.some.inj h).symm))
  refine .of_inside (by simp [hm.ne_nil]) hhead (hm.getLast?_ne hbody) ?_
  rw [hf, List.count_append, List.count_append, List.count_eq_zero_of_not_mem hm.opening,
    List.count_eq_zero_of_not_mem hm.closing, Nat.zero_add, Nat.add_zero]

/-! ### The replacements -/

theorem count_bracketed (t : Text) : (bracketed t).count '|' = t.count '|' := by
  simp [bracketed]

theorem count_emphasized (t : Text) : (emphasized t).count '|' = t.count '|' := by
  simp [emphasized, count_bracketed]

theorem count_humanize (t : Text) : (humanize t).count '|' = t.count '|' := by
  induction t with
  | nil => rfl
  | cons c t ih =>
    have hc : ((if c = '_' then ' ' else c) == '|') = (c == '|') := by
      by_cases h : c = '_'
      · subst h
        rfl
      · rw [if_neg h]
    rw [humanize, replaceChar, List.map_cons, List.count_cons, hc, List.count_cons]
    exact congrArg (· + _) ih

theorem count_plainField (t : Text) : (plainField t).count '|' = t.count '|' := by
  rw [plainField]
  split
  · exact count_bracketed t
  · rw [List.count_append, count_humanize]
    rfl

theorem keepsPipes_afterRun? {p : Char → Bool} (hp : p '|' = false) {t rest : Text}
    (h : afterRun? p t = some rest) : KeepsPipes t rest := by
  obtain ⟨run, hrun, rfl⟩ := exists_of_afterRun? h
  exact .drop_left (fun hmem => absurd (hrun '|' hmem) (by simp [hp])) rest

theorem keepsPipes_afterHashes? (t : Text) : KeepsPipes t ((afterHashes? t).getD t) := by
  cases h : afterHashes? t with
  | none => exact .refl t
  | some rest =>
    obtain ⟨u, hu, hrest⟩ := Option.bind_eq_some_iff.1 h
    exact (keepsPipes_afterRun? (by decide) hu).trans (keepsPipes_afterRun? (by decide) hrest)

theorem keepsPipes_afterNumber? (t : Text) : KeepsPipes t ((afterNumber? t).getD t) := by
  cases h : afterNumber? t with
  | none => exact .refl t
  | some rest =>
    obtain ⟨u, hu, hrest⟩ := Option.bind_eq_some_iff.1 h
    obtain ⟨v, hv, hu⟩ := Option.bind_eq_some_iff.1 hu
    rw [after?_eq_some_iff.1 hu] at hv
    exact ((keepsPipes_afterRun? (by decide) hv).trans (.drop_left (by decide) u)).trans
      (keepsPipes_afterRun? (by decide) hrest)

theorem keepsPipes_plainBullet (t : Text) : KeepsPipes t (plainBullet t) := by
  fun_cases plainBullet t with
  | case1 => exact .refl _
  | case2 c t hc item hi =>
    obtain ⟨blanks, hb, rfl⟩ := exists_of_afterRun? hi
    have hlead : '|' ∉ c :: blanks := by
      rw [List.mem_cons, not_or]
      exact ⟨by rcases hc with rfl | rfl <;> decide, fun h => absurd (hb '|' h) (by decide)⟩
    exact (KeepsPipes.of_notMem (u := ['-', ' ']) hlead (by decide) (by simp)).append (.refl item)
  | case3 c t => exact .refl _
  | case4 c t => exact .refl _

theorem keepsPipes_plainPrompt (t : Text) : KeepsPipes t (plainPrompt t) := by
  rw [plainPrompt]
  split
  · next prompt h =>
    obtain ⟨u, hu, hq⟩ := Option.bind_eq_some_iff.1 h
    obtain ⟨v, hv, hu⟩ := Option.bind_eq_some_iff.1 hu
    obtain ⟨blanks, hb, rfl⟩ := exists_of_afterRun? hu
    rw [after?_eq_some_iff.1 hv, Mark.eq_of_whole? hq]
    have hblanks : blanks.count '|' = 0 :=
      List.count_eq_zero_of_not_mem fun hmem => absurd (hb '|' hmem) (by decide)
    have hlast : (area ++ (blanks ++ (quotation.opening ++ prompt ++ quotation.closing))).getLast? =
        some '"' := by
      rw [← List.append_assoc, ← List.append_assoc, quotation, List.getLast?_append_cons]
      rfl
    refine .of_inside (by simp [area]) (by simp [area]) (by rw [hlast]; decide) ?_
    simp [count_bracketed, area, quotation, hblanks]
  · exact .refl t

theorem keepsPipes_plainArea (t : Text) : KeepsPipes t (plainArea t) := by
  rw [plainArea]
  split
  · next h =>
    rw [h]
    exact .of_notMem (by decide) (by decide) (by decide)
  · exact .refl t

theorem keepsPipes_of_mem_steps : ∀ step ∈ steps, ∀ t, KeepsPipes t (step t) := by
  simp only [steps, List.forall_mem_cons]
  refine ⟨keepsPipes_afterHashes?, keepsPipes_plainBullet, keepsPipes_afterNumber?,
    keepsPipes_replace ⟨by decide, by decide, by decide, by decide⟩ fun label => by simp,
    keepsPipes_plainPrompt, keepsPipes_plainArea,
    keepsPipes_replace ⟨by decide, by decide, by decide, by decide⟩ count_plainField,
    keepsPipes_replace ⟨by decide, by decide, by decide, by decide⟩ count_emphasized,
    keepsPipes_replace ⟨by decide, by decide, by decide, by decide⟩ count_bracketed,
    keepsPipes_replace ⟨by decide, by decide, by decide, by decide⟩ count_emphasized,
    keepsPipes_replace ⟨by decide, by decide, by decide, by decide⟩ count_bracketed,
    keepsPipes_replace ⟨by decide, by decide, by decide, by decide⟩ fun name => by simp,
    keepsPipes_replace ⟨by decide, by decide, by decide, by decide⟩ fun label => rfl, by simp⟩

/-- All replacements together keep the pipes. -/
theorem keepsPipes_foldl_steps (t : Text) :
    KeepsPipes t (steps.foldl (fun t step => step t) t) :=
  List.foldlRecOn steps _ (.refl t) fun _ h step hstep =>
    h.trans (keepsPipes_of_mem_steps step hstep _)

/-! ### Plain forms -/

theorem pipe_notMem_squeeze {t : Text} (h : '|' ∉ t) : '|' ∉ squeeze t := by
  intro hmem
  rcases mem_of_mem_join hmem with hc | hc
  · exact absurd hc (by decide)
  · rw [flatten_words] at hc
    exact h (mem_of_mem_ink hc)

/-- Spaces beside the pipes of a row are no ink. -/
theorem ink_plainPipe (c : Char) : ink (if c = '|' then plainPipe true else [c]) = ink [c] := by
  split
  · next hc =>
    subst hc
    decide
  · rfl

/-- The plain form of a table row has the ink of the row with its marks replaced. -/
theorem ink_plain {t : Text} (h : isTableRow t = true) :
    ink (plain t) = ink (steps.foldl (fun t step => step t) t.trim) := by
  rw [plain, ink_squeeze, h, ink_flatMap ink_plainPipe]

theorem pipe_notMem_plain {t : Text} (h : isTableRow t = false) : '|' ∉ plain t := by
  rw [plain, h]
  refine pipe_notMem_squeeze fun hmem => ?_
  obtain ⟨c, -, hc⟩ := List.mem_flatMap.1 hmem
  split at hc
  · exact absurd hc (by decide)
  · next hne => exact hne (List.mem_singleton.1 hc).symm

theorem count_plain {t : Text} (h : isTableRow t = true) : (plain t).count '|' = t.count '|' := by
  have hpipe : blank '|' = false := by decide
  rw [← count_ink hpipe, ink_plain h, count_ink hpipe, (keepsPipes_foldl_steps t.trim).count_eq,
    count_trim hpipe]

theorem isTableRow_plain {t : Text} (h : isTableRow t = true) : isTableRow (plain t) = true := by
  obtain ⟨hhead, hlast⟩ := isTableRow_iff.1 h
  have hkeeps := keepsPipes_foldl_steps t.trim
  rw [isTableRow_congr (ink_plain h)]
  refine isTableRow_of_ends ((hkeeps.starts fun c hc => ?_).trans hhead)
    ((hkeeps.ends fun c hc => ?_).trans hlast)
  · exact Option.some.inj (hc.symm.trans hhead)
  · exact Option.some.inj (hc.symm.trans hlast)

/-- What the plain form of a row keeps of its cells, and where it has white space: single spaces
between other characters. -/
structure KeepsCells (t u : Text) : Prop where
  tableRow : isTableRow t.trim = true → isTableRow u = true ∧ u.count '|' = t.count '|' ∧
    (tableCells u).length = (tableCells t).length
  other : isTableRow t.trim = false → '|' ∉ u
  trimmed : u.Trimmed
  singleSpaced : u.SingleSpaced

/-- The plain form of a table row is a table row with as many cells, and any other plain form has no
pipes. -/
theorem keepsCells_plain (t : Text) : KeepsCells t (plain t) where
  tableRow h := by
    rw [isTableRow_trim] at h
    have hplain := isTableRow_plain h
    exact ⟨hplain, count_plain h, by
      rw [length_tableCells hplain, length_tableCells h, count_plain h]⟩
  other h := pipe_notMem_plain (isTableRow_trim t ▸ h)
  trimmed := (singleSpaced_squeeze _).trimmed
  singleSpaced := singleSpaced_squeeze _

end Wireframe.Row
