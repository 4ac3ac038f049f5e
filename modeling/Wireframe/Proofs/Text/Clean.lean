import Wireframe.Proofs.Text.Split

/-! Clean texts, whose only white space is the space and which do not end in one (`Clean`), and
those of them that do not start with a space and have no two side by side (`SingleSpaced`).
Trimming makes a spaced text clean (`clean_trimEnd`), and words with single spaces between them are
single-spaced (`singleSpaced_join`). -/

namespace Wireframe.Text

/-- The only white space is the space. -/
def Spaced (t : Text) : Prop := ∀ c ∈ t, blank c = true → c = ' '

/-- The only white space is the space, and the text does not end in one. -/
structure Clean (t : Text) : Prop where
  spaced : t.Spaced
  getLast?_ne : t.getLast? ≠ some ' '

theorem Spaced.append {s t : Text} (hs : s.Spaced) (ht : t.Spaced) : (s ++ t).Spaced := by
  intro c hc
  rcases List.mem_append.1 hc with hc | hc
  · exact hs c hc
  · exact ht c hc

theorem Spaced.mono {s t : Text} (ht : t.Spaced) (h : ∀ c ∈ s, c ∈ t) : s.Spaced :=
  fun c hc => ht c (h c hc)

theorem spaced_of_not_blank {t : Text} (h : ∀ c ∈ t, blank c = false) : t.Spaced := by
  intro c hc hb
  rw [h c hc] at hb
  contradiction

theorem spaced_spaces (n : Nat) : Spaced (List.replicate n ' ') :=
  fun _ hc _ => List.eq_of_mem_replicate hc

theorem spaced_join {sep : Text} {pieces : List Text} (hs : sep.Spaced)
    (hp : ∀ piece ∈ pieces, piece.Spaced) : (join sep pieces).Spaced := by
  intro c hc
  rcases mem_of_mem_join hc with hc | hc
  · exact hs c hc
  · obtain ⟨piece, hpiece, hc⟩ := List.mem_flatten.1 hc
    exact hp piece hpiece c hc

theorem getLast?_ne_of_not_blank {t : Text} (h : ∀ c ∈ t.getLast?, blank c = false) :
    t.getLast? ≠ some ' ' := by
  intro hs
  have hspace : blank ' ' = false := h ' ' hs
  contradiction

theorem clean_nil : Clean [] :=
  ⟨spaced_of_not_blank (List.forall_mem_nil _), by simp⟩

/-- Words with single spaces between them are a clean line. -/
theorem clean_join {ws : List Text} (h : ∀ w ∈ ws, IsWord w) : (join [' '] ws).Clean := by
  constructor
  · exact spaced_join (spaced_spaces 1) fun w hw => spaced_of_not_blank (h w hw).2
  · exact getLast?_ne_of_not_blank (not_blank_of_getLast?_join h)

theorem clean_squeeze (t : Text) : (squeeze t).Clean :=
  clean_join fun _ => isWord_of_mem_words

theorem clean_trimEnd {t : Text} (h : t.Spaced) : (trimEnd t).Clean := by
  constructor
  · exact h.mono fun _ hc => (isPrefix_trimEnd t).mem hc
  · refine getLast?_ne_of_not_blank ?_
    rw [trimEnd, List.getLast?_reverse]
    exact head?_dropWhile_blank _

theorem clean_append_singleton {t : Text} (h : t.Spaced) {c : Char} (hc : blank c = false) :
    (t ++ [c]).Clean := by
  constructor
  · exact h.append (spaced_of_not_blank (List.forall_mem_singleton.2 hc))
  · refine getLast?_ne_of_not_blank ?_
    rw [List.getLast?_append_cons]
    exact fun d hd => Option.some.inj hd ▸ hc

/-! ### Single spaces -/

/-- A clean text that does not start with a space and has no two spaces side by side. -/
structure SingleSpaced (t : Text) : Prop extends Clean t where
  head?_ne : t.head? ≠ some ' '
  not_adjacent : ¬ [' ', ' '] <:+: t

/-- Words with single spaces between them have no other spaces. -/
theorem singleSpaced_join {ws : List Text} (h : ∀ w ∈ ws, IsWord w) :
    (join [' '] ws).SingleSpaced := by
  have hspace : blank ' ' = true := by decide
  by_cases hne : ws = []
  · subst hne
    exact ⟨clean_nil, by simp, by simp⟩
  · -- the text is split into its words again, and no word is empty
    have hnil : [] ∉ splitBy blank (join [' '] ws) := by
      rw [splitBy_join hspace hne fun w hw => (h w hw).2]
      exact fun hnil => (h [] hnil).1 rfl
    exact ⟨clean_join h, fun hhead => hnil (nil_mem_splitBy_of_head? hspace hhead),
      fun hspaces => hnil (nil_mem_splitBy_of_adjacent hspace hspaces)⟩

theorem singleSpaced_squeeze (t : Text) : (squeeze t).SingleSpaced :=
  singleSpaced_join fun _ => isWord_of_mem_words

theorem SingleSpaced.trimmed {t : Text} (h : t.SingleSpaced) : t.Trimmed := by
  constructor
  · intro c hc
    refine Bool.eq_false_iff.2 fun hb => h.head?_ne ?_
    rw [Option.mem_def.1 hc, h.spaced c (List.mem_of_head? hc) hb]
  · intro c hc
    refine Bool.eq_false_iff.2 fun hb => h.getLast?_ne ?_
    rw [Option.mem_def.1 hc, h.spaced c (List.mem_of_getLast? hc) hb]

end Wireframe.Text
