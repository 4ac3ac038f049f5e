import Mathlib.Data.List.Basic
import Wireframe.Proofs.Text.Join
import Wireframe.Proofs.Text.Trim

/-! Split texts. Pieces that hold no separator are what their joined text is split into
(`splitBy_join`), so words with single spaces between them are read back (`words_join`) and
squeezing does not change them (`squeeze_join`). -/

namespace Wireframe.Text

/-! ### Pieces -/

section

variable {p : Char → Bool} {c : Char}

theorem splitBy_append_cons (hc : p c = true) (s t : Text) :
    splitBy p (s ++ c :: t) = splitBy p s ++ splitBy p t := by
  induction s with
  | nil => simp [splitBy, hc]
  | cons d s ih =>
    have hne := splitBy_ne_nil p s
    obtain ⟨piece, pieces, hs⟩ := List.exists_cons_of_ne_nil hne
    by_cases hd : p d = true <;> simp [splitBy, hd, ih, hs, growFirst]

theorem splitBy_of_forall {t : Text} (h : ∀ c ∈ t, p c = false) : splitBy p t = [t] := by
  induction t with
  | nil => rfl
  | cons c t ih =>
    obtain ⟨hc, ht⟩ := List.forall_mem_cons.1 h
    simp [splitBy, hc, ih ht, growFirst]

/-- There is one piece more than there are separators. -/
theorem length_splitBy (p : Char → Bool) (t : Text) : (splitBy p t).length = t.countP p + 1 := by
  induction t with
  | nil => rfl
  | cons c t ih =>
    obtain ⟨piece, pieces, hs⟩ := List.exists_cons_of_ne_nil (splitBy_ne_nil p t)
    rw [hs] at ih
    by_cases hc : p c = true <;> simp_all [splitBy, growFirst]

/-- Pieces without a separator are what their joined text is split into. -/
theorem splitBy_join (hc : p c = true) {pieces : List Text} (hne : pieces ≠ [])
    (h : ∀ piece ∈ pieces, ∀ d ∈ piece, p d = false) : splitBy p (join [c] pieces) = pieces := by
  induction pieces with
  | nil => contradiction
  | cons piece more ih =>
    obtain ⟨hpiece, hmore⟩ := List.forall_mem_cons.1 h
    cases more with
    | nil => rw [join_singleton, splitBy_of_forall hpiece]
    | cons next more =>
      rw [join_cons_cons, splitBy_append_cons hc, splitBy_of_forall hpiece,
        ih (List.cons_ne_nil next more) hmore]
      rfl

/-- Joining the pieces by the separator gives the text back. -/
theorem join_splitBy (c : Char) (t : Text) : join [c] (splitBy (· = c) t) = t := by
  induction t with
  | nil => rfl
  | cons d t ih =>
    obtain ⟨piece, pieces, hs⟩ := List.exists_cons_of_ne_nil (splitBy_ne_nil (· = c) t)
    rw [hs] at ih
    by_cases hd : d = c
    · rw [splitBy, if_pos (decide_eq_true hd), hs, join_cons_cons, ih, hd, List.nil_append]
    · rw [splitBy, if_neg (by simpa using hd), hs, growFirst, join_cons, List.cons_append,
        ← join_cons, ih]

/-- A separator at the start has an empty piece before it. -/
theorem nil_mem_splitBy_of_head? (hc : p c = true) {t : Text} (h : t.head? = some c) :
    [] ∈ splitBy p t := by
  obtain ⟨rest, rfl⟩ := List.head?_eq_some_iff.1 h
  rw [splitBy, if_pos hc]
  exact List.mem_cons_self

/-- Two separators side by side have an empty piece between them. -/
theorem nil_mem_splitBy_of_adjacent (hc : p c = true) {t : Text} (h : [c, c] <:+: t) :
    [] ∈ splitBy p t := by
  obtain ⟨before, after, rfl⟩ := h
  have hafter : [] ∈ splitBy p (c :: after) := nil_mem_splitBy_of_head? hc rfl
  rw [List.append_assoc, List.cons_append, splitBy_append_cons hc, List.mem_append]
  exact .inr hafter

end

/-! ### Words -/

/-- One or more characters, none of them white space. -/
def IsWord (t : Text) : Prop := t ≠ [] ∧ ∀ c ∈ t, blank c = false

theorem isWord_of_mem_words {t word : Text} (h : word ∈ words t) : word.IsWord :=
  ⟨ne_nil_of_mem_words h, fun _ hc => not_blank_of_mem_words h hc⟩

/-- Words with single spaces between them are read back. -/
theorem words_join {ws : List Text} (h : ∀ w ∈ ws, IsWord w) : words (join [' '] ws) = ws := by
  by_cases hne : ws = []
  · subst hne
    rfl
  · rw [words, splitBy_join rfl hne fun w hw => (h w hw).2, List.filter_eq_self]
    intro w hw
    simpa using (h w hw).1

theorem words_append_cons {c : Char} (hc : blank c = true) (s t : Text) :
    words (s ++ c :: t) = words s ++ words t := by
  rw [words, splitBy_append_cons hc, List.filter_append]
  rfl

theorem words_cons_of_blank {c : Char} (hc : blank c = true) (t : Text) :
    words (c :: t) = words t :=
  words_append_cons hc [] t

theorem words_blanks_append {blanks : Text} (hb : ∀ c ∈ blanks, blank c = true) (t : Text) :
    words (blanks ++ t) = words t := by
  induction blanks with
  | nil => rfl
  | cons c blanks ih =>
    obtain ⟨hc, hb⟩ := List.forall_mem_cons.1 hb
    rw [List.cons_append, words_cons_of_blank hc, ih hb]

theorem IsWord.words_eq {w : Text} (h : IsWord w) : words w = [w] := by
  have hwords := words_join (List.forall_mem_singleton.2 h)
  rwa [join_singleton] at hwords

/-- Texts with white space between them have their words in order. -/
theorem words_join_blanks {sep : Text} (hne : sep ≠ []) (hsep : ∀ c ∈ sep, blank c = true)
    (pieces : List Text) : words (join sep pieces) = pieces.flatMap words := by
  induction pieces with
  | nil => rfl
  | cons first more ih =>
    cases more with
    | nil => simp
    | cons next more =>
      obtain ⟨c, sep, rfl⟩ := List.exists_cons_of_ne_nil hne
      obtain ⟨hc, hblanks⟩ := List.forall_mem_cons.1 hsep
      rw [join_cons_append, List.cons_append, words_append_cons hc, words_blanks_append hblanks, ih]
      exact List.flatMap_cons.symm

theorem words_trim (t : Text) : words t.trim = words t := by
  obtain ⟨before, after, hb, ha, he⟩ := exists_blanks_trim t
  conv_rhs => rw [he, List.append_assoc, words_blanks_append hb]
  cases after with
  | nil => rw [List.append_nil]
  | cons c after =>
    obtain ⟨hc, hafter⟩ := List.forall_mem_cons.1 ha
    have hnone : words after = [] := by
      have hwords := words_blanks_append hafter []
      rwa [List.append_nil] at hwords
    rw [words_append_cons hc, hnone, List.append_nil]

/-- A function that goes on behind white space as at the start of a text goes over the words. -/
theorem words_map {f : Text → Text} (hnil : f [] = [])
    (hblank : ∀ s t c, blank c = true → f (s ++ c :: t) = f s ++ c :: f t)
    (hword : ∀ w, IsWord w → IsWord (f w)) (t : Text) : words (f t) = (words t).map f := by
  have hrun : ∀ w, (∀ c ∈ w, blank c = false) → words (f w) = (words w).map f := by
    intro w hw
    by_cases hne : w = []
    · rw [hne, hnil]
      rfl
    · rw [(hword w ⟨hne, hw⟩).words_eq, IsWord.words_eq ⟨hne, hw⟩, List.map_singleton]
  -- the word that has been read so far stands before the text
  suffices h : ∀ w, (∀ c ∈ w, blank c = false) → words (f (w ++ t)) = (words (w ++ t)).map f from
    h [] (List.forall_mem_nil _)
  induction t with
  | nil =>
    intro w hw
    rw [List.append_nil, hrun w hw]
  | cons c t ih =>
    intro w hw
    cases hc : blank c with
    | true =>
      have ht : words (f t) = (words t).map f := ih [] (List.forall_mem_nil _)
      rw [hblank w t c hc, words_append_cons hc, words_append_cons hc, hrun w hw, ht,
        List.map_append]
    | false =>
      have hgrown := ih (w ++ [c]) (List.forall_mem_append.2 ⟨hw, List.forall_mem_singleton.2 hc⟩)
      rwa [List.append_assoc] at hgrown

theorem squeeze_join {ws : List Text} (h : ∀ w ∈ ws, IsWord w) :
    squeeze (join [' '] ws) = join [' '] ws := by
  rw [squeeze, words_join h]

/-- Words with spaces between them end in a character of the last word. -/
theorem not_blank_of_getLast?_join {ws : List Text} (h : ∀ w ∈ ws, IsWord w) :
    ∀ c ∈ (join [' '] ws).getLast?, blank c = false := by
  induction ws with
  | nil => simp
  | cons w ws ih =>
    obtain ⟨hw, hws⟩ := List.forall_mem_cons.1 h
    cases ws with
    | nil =>
      rw [join_singleton]
      exact fun c hc => hw.2 c (List.mem_of_getLast? hc)
    | cons v ws =>
      have hne : join [' '] (v :: ws) ≠ [] := by
        rw [join_cons]
        exact List.append_ne_nil_of_left_ne_nil (hws v List.mem_cons_self).1 _
      rw [join_cons_cons, List.getLast?_append_cons, List.getLast?_cons_of_ne_nil hne]
      exact ih hws

/-- One or more words with single spaces between them. -/
def Worded (t : Text) : Prop := ∃ ws, ws ≠ [] ∧ (∀ w ∈ ws, IsWord w) ∧ t = join [' '] ws

namespace Worded

variable {s t w : Text}

theorem squeeze_eq (h : Worded t) : squeeze t = t := by
  obtain ⟨ws, -, hws, rfl⟩ := h
  exact squeeze_join hws

theorem of_isWord (h : IsWord w) : Worded w :=
  ⟨[w], List.cons_ne_nil _ _, List.forall_mem_singleton.2 h, (join_singleton _ _).symm⟩

theorem words_ne_nil (h : Worded t) : words t ≠ [] := by
  obtain ⟨ws, hne, hws, rfl⟩ := h
  rwa [words_join hws]

theorem ne_nil (h : Worded t) : t ≠ [] := by
  rintro rfl
  exact h.words_ne_nil rfl

theorem trimmed (h : Worded t) : t.Trimmed := by
  obtain ⟨ws, hne, hws, rfl⟩ := h
  refine ⟨?_, not_blank_of_getLast?_join hws⟩
  obtain ⟨w, ws, rfl⟩ := List.exists_cons_of_ne_nil hne
  have hw := hws w List.mem_cons_self
  obtain ⟨c, w, rfl⟩ := List.exists_cons_of_ne_nil hw.1
  rw [join_cons]
  rintro d ⟨⟩
  exact hw.2 c List.mem_cons_self

theorem append_space (hs : Worded s) (ht : Worded t) : Worded (s ++ ' ' :: t) := by
  obtain ⟨vs, hv, hvs, rfl⟩ := hs
  obtain ⟨ws, hw, hws, rfl⟩ := ht
  exact ⟨vs ++ ws, List.append_ne_nil_of_left_ne_nil hv ws, List.forall_mem_append.2 ⟨hvs, hws⟩,
    (join_append [' '] hv hw).symm⟩

/-- Characters other than white space may be put in front of the first word. -/
theorem prepend {lead : Text} (hl : ∀ c ∈ lead, blank c = false) (h : Worded t) :
    Worded (lead ++ t) := by
  obtain ⟨ws, hne, hws, rfl⟩ := h
  obtain ⟨w, ws, rfl⟩ := List.exists_cons_of_ne_nil hne
  obtain ⟨hw, hws⟩ := List.forall_mem_cons.1 hws
  have hfirst : IsWord (lead ++ w) :=
    ⟨List.append_ne_nil_of_right_ne_nil lead hw.1, List.forall_mem_append.2 ⟨hl, hw.2⟩⟩
  refine ⟨(lead ++ w) :: ws, List.cons_ne_nil _ _, List.forall_mem_cons.2 ⟨hfirst, hws⟩, ?_⟩
  rw [join_cons, join_cons, List.append_assoc]

/-- Characters other than white space may be put after the last word. -/
theorem append {trail : Text} (ht : ∀ c ∈ trail, blank c = false) (h : Worded t) :
    Worded (t ++ trail) := by
  obtain ⟨ws, hne, hws, rfl⟩ := h
  obtain ⟨ws, w, rfl⟩ := (List.eq_nil_or_concat' ws).resolve_left hne
  obtain ⟨hws, hw⟩ := List.forall_mem_append.1 hws
  have hw := List.forall_mem_singleton.1 hw
  have hlast : IsWord (w ++ trail) :=
    ⟨List.append_ne_nil_of_left_ne_nil hw.1 trail, List.forall_mem_append.2 ⟨hw.2, ht⟩⟩
  refine ⟨ws ++ [w ++ trail], by simp,
    List.forall_mem_append.2 ⟨hws, List.forall_mem_singleton.2 hlast⟩, ?_⟩
  rw [join_append_cons, join_append_cons]
  simp

theorem enclose (lead trail : Text) (hl : lead.all (! blank ·) = true)
    (ht : trail.all (! blank ·) = true) (h : Worded t) : Worded (lead ++ t ++ trail) := by
  simp only [List.all_eq_true, Bool.not_eq_true'] at hl ht
  exact (h.prepend hl).append ht

end Worded

end Wireframe.Text
