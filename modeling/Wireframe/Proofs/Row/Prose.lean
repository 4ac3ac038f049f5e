import Wireframe.Proofs.Row.Label

/-! Plain forms of prose. A text without characters that tell a mark, but for colons, is not changed
except that its words stand with single spaces between them and that icons are replaced. An icon is
found inside of words too, so exactly those words stay as they are in which no character of a name
follows `i:` (`plain_of_prose`). -/

namespace Wireframe.Row

open Text

/-- The characters that tell leads, pipes and other marks than icons. -/
def proseMarks : List Char := ['#', '*', '^', '!', '_', '|', '\x60']

/-- A text that does not start like a list item and holds no character that tells another mark than
an icon. -/
structure Prose (t : Text) : Prop where
  marks : ∀ c ∈ proseMarks, c ∉ t
  lead : Ends (fun c => c = '-' || digit c) t.trim

theorem prose_iff {t : Text} : Prose t ↔ proseMarks.all (fun c => decide (c ∉ t)) = true ∧
    t.trim.head?.all (fun c => ! (c = '-' || digit c)) = true := by
  simp only [List.all_eq_true, decide_eq_true_eq, Option.all_eq_true, Bool.not_eq_true']
  exact ⟨fun h => ⟨h.marks, h.lead⟩, fun h => ⟨h.1, h.2⟩⟩

instance (t : Text) : Decidable (Prose t) := decidable_of_iff _ prose_iff.symm

/-- Somewhere in the word a character of a name follows the opening of an icon. -/
def HoldsIcon (word : Text) : Prop := ∃ c, isIconChar c = true ∧ icon.opening ++ [c] <:+: word

/-- The text with the plain forms of its icons. -/
def plainIcons (t : Text) : Text := icon.replace (fun name => '<' :: name ++ ['>']) t

variable {t word : Text} {c : Char}

theorem foldl_eq_self {fs : List (Text → Text)} (h : ∀ f ∈ fs, f t = t) :
    fs.foldl (fun t f => f t) t = t := by
  induction fs with
  | nil => rfl
  | cons f fs ih =>
    obtain ⟨hf, hfs⟩ := List.forall_mem_cons.1 h
    rw [List.foldl_cons, hf, ih hfs]

theorem plainIcons_eq_self_iff : plainIcons t = t ↔ ¬ HoldsIcon t := by
  have hcount : ∀ body, (∀ c ∈ body, icon.body c = true) →
      ('<' :: body ++ ['>']).count ':' < (icon.opening ++ body ++ icon.closing).count ':' := by
    intro body hbody
    have hcolon : ':' ∉ body := fun hc => absurd (hbody _ hc) (by decide)
    simp [icon, List.count_eq_zero_of_not_mem hcolon]
  rw [plainIcons, Mark.replace_eq_self_iff (List.cons_ne_nil _ _) hcount]
  constructor
  · rintro h ⟨c, hc, hinfix⟩
    obtain ⟨u, hprefix, hsuffix⟩ := List.infix_iff_prefix_suffix.1 hinfix
    exact (Mark.read?_eq_none_iff_of_unclosed rfl rfl).1 (h u hsuffix) c hc hprefix
  · intro h u hu
    refine (Mark.read?_eq_none_iff_of_unclosed rfl rfl).2 fun c hc hprefix => h ⟨c, hc, ?_⟩
    exact hprefix.isInfix.trans hu.isInfix

theorem notMem_plainIcons (hc : c ∉ ['<', '>']) (ht : c ∉ t) : c ∉ plainIcons t := by
  refine Mark.notMem_replace (List.cons_ne_nil _ _) (fun body hbody => ?_) ht
  simp only [List.mem_cons, List.not_mem_nil, or_false, not_or] at hc
  simp [hc.1, hc.2, hbody]

theorem isWord_plainIcons (h : IsWord word) : IsWord (plainIcons word) := by
  refine Mark.isWord_replace (List.cons_ne_nil _ _) (fun body _ hbody => ?_) h
  have hangles : (['<', '>'].all fun c => ! blank c) = true := by decide
  simp only [List.all_cons, List.all_nil, Bool.and_eq_true, Bool.not_eq_true', and_true] at hangles
  exact ⟨List.cons_ne_nil _ _, List.forall_mem_append.2
    ⟨List.forall_mem_cons.2 ⟨hangles.1, hbody⟩, List.forall_mem_singleton.2 hangles.2⟩⟩

theorem words_plainIcons (t : Text) : words (plainIcons t) = (words t).map plainIcons := by
  refine words_map rfl (fun s t c hc => ?_) (fun w hw => isWord_plainIcons hw) t
  have hopening : c ∉ icon.opening := fun hmem => by
    simp only [icon, List.mem_cons, List.not_mem_nil, or_false] at hmem
    rcases hmem with rfl | rfl <;> exact absurd hc (by decide)
  have hbody : icon.body c = false := Bool.eq_false_iff.2 fun hicon => by
    simp [not_blank_of_isIconChar hicon] at hc
  exact Mark.replace_append_cons (List.cons_ne_nil _ _) rfl hopening hbody s t

/-! ### Prose -/

theorem Prose.notMem_trim (h : Prose t) : ∀ c ∈ proseMarks, c ∉ t.trim :=
  fun c hc hmem => h.marks c hc (mem_of_mem_trim hmem)

theorem Prose.ends (h : Prose t) : Ends isLead t.trim := by
  intro c hc
  have hne : ∀ d ∈ proseMarks, c ≠ d := by
    rintro d hd rfl
    exact h.notMem_trim c hd (List.mem_of_mem_head? hc)
  have hlead : (c = '-' || digit c) = false := h.lead c hc
  rw [Bool.or_eq_false_iff, decide_eq_false_iff_not] at hlead
  simp [isLead, hne '#' (by decide), hne '*' (by decide), hlead.1, hlead.2]

theorem Prose.isTableRow_eq_false (h : Prose t) : isTableRow t = false := by
  refine Bool.eq_false_iff.2 fun htable => ?_
  exact h.notMem_trim '|' (by decide) (List.mem_of_mem_head? (isTableRow_iff.1 htable).1)

theorem Prose.foldl_markSteps (h : Prose t) :
    markSteps.foldl (fun t step => step t) t.trim = plainIcons t.trim := by
  have hkept : ∀ {m : Mark} {f : Text → Text} (c : Char),
      c ∈ m.opening → c ∈ proseMarks → m.replace f t.trim = t.trim :=
    fun c ho hc => Mark.replace_of_notMem ho (h.notMem_trim c hc)
  have hmarks : ∀ f ∈ markSteps.take 6, f t.trim = t.trim :=
    List.forall_mem_cons.2 ⟨hkept '\x60' (by decide) (by decide), List.forall_mem_cons.2
      ⟨hkept '^' (by decide) (by decide), List.forall_mem_cons.2
      ⟨hkept '!' (by decide) (by decide), List.forall_mem_cons.2
      ⟨hkept '!' (by decide) (by decide), List.forall_mem_cons.2
      ⟨hkept '!' (by decide) (by decide), List.forall_mem_cons.2
      ⟨hkept '!' (by decide) (by decide), List.forall_mem_nil _⟩⟩⟩⟩⟩⟩
  have hsteps : markSteps = markSteps.take 6 ++ [plainIcons] := rfl
  rw [hsteps, List.foldl_append, foldl_eq_self hmarks, List.foldl_cons, List.foldl_nil]

/-- The plain form of prose is its words with the icons in them replaced, so it is the words
themselves if and only if there is no icon in any of them. -/
theorem plain_of_prose (h : Prose t) : plain t = join [' '] ((words t).map plainIcons) ∧
    (plain t = join [' '] (words t) ↔ ∀ word ∈ words t, ¬ HoldsIcon word) := by
  have harea : after? area t.trim = none :=
    after?_of_ends (ends_of_notMem (h.notMem_trim '^' (by decide))) ['^']
  have hpipe : '|' ∉ plainIcons t.trim :=
    notMem_plainIcons (by decide) (h.notMem_trim '|' (by decide))
  have hunder : '_' ∉ plainIcons t.trim :=
    notMem_plainIcons (by decide) (h.notMem_trim '_' (by decide))
  have hplain : plain t = join [' '] ((words t).map plainIcons) := by
    rw [plain_of_unled h.ends harea h.isTableRow_eq_false, h.foldl_markSteps,
      Mark.replace_of_notMem (by decide) hunder, flatMap_of_pipe_notMem hpipe, squeeze,
      words_plainIcons, words_trim]
  have hwords : ∀ word ∈ words t, IsWord word := fun _ hw => isWord_of_mem_words hw
  have hforms : ∀ form ∈ (words t).map plainIcons, IsWord form :=
    List.forall_mem_map.2 fun word hw => isWord_plainIcons (hwords word hw)
  refine ⟨hplain, ?_⟩
  calc
    plain t = join [' '] (words t) ↔ (words t).map plainIcons = words t := by
      rw [hplain]
      refine ⟨fun h => ?_, congrArg _⟩
      rw [← words_join hforms, h, words_join hwords]
    _ ↔ ∀ word ∈ words t, ¬ HoldsIcon word := by
      conv_lhs => rhs; rw [← List.map_id (words t)]
      rw [List.map_inj_left]
      exact forall₂_congr fun word _ => plainIcons_eq_self_iff

/-- An icon at the end of a word is replaced like one at its start. -/
theorem plain_of_prose_sample : Prose " see\twifi:on  i: ok".toList ∧
    plain " see\twifi:on  i: ok".toList = "see wif<on> i: ok".toList := by
  have hprose : Prose " see\twifi:on  i: ok".toList := by decide
  exact ⟨hprose, (plain_of_prose hprose).1.trans (by decide)⟩

/-- Prose in which no word starts as an icon does may have another plain form than its words. -/
theorem plain_ne_of_prose : Prose "wifi:on".toList ∧
    (∀ word ∈ words "wifi:on".toList, ¬ icon.opening <+: word) ∧
      plain "wifi:on".toList ≠ join [' '] (words "wifi:on".toList) := by
  have hplain : plain "wifi:on".toList = "wif<on>".toList := by decide
  have hwords : words "wifi:on".toList = ["wifi:on".toList] := by decide
  rw [hplain, hwords]
  exact ⟨by decide, List.forall_mem_singleton.2 (by decide), by decide⟩

end Wireframe.Row
