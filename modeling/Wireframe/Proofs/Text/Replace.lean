import Wireframe.Proofs.Text.Mark
import Wireframe.Proofs.Text.Split

/-! Texts in which the spans of a mark are replaced. The replacement goes from left to right: at a
span it goes on after it (`replace_of_read?`), and text in which no span starts is kept
(`replace_append_of_none`). A text is cut without loss at a character that no span goes over
(`replace_append_cons`, `replace_append_of_notMem`). Replacing changes a text exactly when a span is
read somewhere in it (`replace_eq_self_iff`). -/

namespace Wireframe.Mark

open Text

variable {m : Mark} {f : Text → Text} {c : Char} {s t u v body rest : Text}

/-! ### From left to right -/

@[simp] theorem replace_nil (m : Mark) (f : Text → Text) : m.replace f [] = [] := rfl

theorem read?_nil (hm : m.opening ≠ []) : m.read? [] = none := by
  obtain ⟨c, more, ho⟩ := List.exists_cons_of_ne_nil hm
  exact read?_of_ends ho fun _ hc => absurd hc (by simp)

theorem replace_of_read? (hm : m.opening ≠ []) (h : m.read? t = some (body, rest)) :
    m.replace f t = f body ++ m.replace f rest := by
  have hscan : scan m.read? t = .span body :: scan m.read? rest := by
    refine scan_of_scanned (advances hm) ?_
    cases t with
    | nil =>
      rw [read?_nil hm] at h
      contradiction
    | cons c t => exact .span h (scanned_scan (advances hm) rest)
  rw [replace_eq_flatMap, hscan, List.flatMap_cons, replace_eq_flatMap]
  rfl

theorem replace_cons_of_none (h : m.read? (c :: t) = none) :
    m.replace f (c :: t) = c :: m.replace f t := by
  rw [replace, scan, scanAfter, h]
  rfl

/-- Text in which no span starts is kept. -/
theorem replace_append_of_none (h : ∀ u, u ≠ [] → u <:+ s → m.read? (u ++ t) = none) :
    m.replace f (s ++ t) = s ++ m.replace f t := by
  induction s with
  | nil => rfl
  | cons c s ih =>
    have hc : m.read? (c :: (s ++ t)) = none :=
      h (c :: s) (List.cons_ne_nil c s) (List.suffix_refl _)
    rw [List.cons_append, replace_cons_of_none hc,
      ih fun u hne hu => h u hne (hu.trans (List.suffix_cons c s)), List.cons_append]

theorem replace_of_none (h : ∀ u, u <:+ t → m.read? u = none) : m.replace f t = t := by
  have hkept := replace_append_of_none (m := m) (f := f) (s := t) (t := []) fun u _ hu => by
    rw [List.append_nil]
    exact h u hu
  rwa [List.append_nil, replace_nil, List.append_nil] at hkept

theorem replace_of_notMem (hc : c ∈ m.opening) (ht : c ∉ t) : m.replace f t = t := by
  refine replace_of_none fun u hu => Option.eq_none_iff_forall_ne_some.2 fun (body, rest) h => ?_
  refine ht (hu.mem ?_)
  rw [eq_of_read? h]
  simp [hc]

/-- A text that starts with `c` when spans are replaced starts with it before, if no replacement
starts with it. -/
theorem exists_cons_of_replace (hm : m.opening ≠ [])
    (hf : ∀ body, ∃ d more, f body = d :: more ∧ d ≠ c) (h : m.replace f t = c :: u) :
    ∃ v, t = c :: v ∧ m.replace f v = u := by
  cases t with
  | nil => cases h
  | cons d t =>
    cases hread : m.read? (d :: t) with
    | none =>
      rw [replace_cons_of_none hread] at h
      obtain ⟨rfl, rfl⟩ := List.cons.inj h
      exact ⟨t, rfl, rfl⟩
    | some found =>
      obtain ⟨body, rest⟩ := found
      obtain ⟨e, more, he, hne⟩ := hf body
      rw [replace_of_read? hm hread, he] at h
      exact absurd (List.cons.inj h).1 hne

/-- A character that no replacement puts in is in no text in which spans are replaced. -/
theorem notMem_replace (hm : m.opening ≠ []) (hf : ∀ body, c ∉ body → c ∉ f body) (ht : c ∉ t) :
    c ∉ m.replace f t := by
  refine replace_induction (R := fun t u => c ∉ t → c ∉ u) hm id ?_ (fun _ => id)
    (fun body _ _ h => hf body fun hc => h (by simp [hc])) t ht
  intro s t u v hst huv h
  rw [List.mem_append, not_or] at h ⊢
  exact ⟨hst h.1, huv h.2⟩

/-- A word stays one if the spans in it are replaced by words. -/
theorem isWord_replace (hm : m.opening ≠ [])
    (hf : ∀ body, m.least ≤ body.length → (∀ d ∈ body, blank d = false) → IsWord (f body))
    (ht : IsWord t) : IsWord (m.replace f t) := by
  have hrel : (∀ d ∈ t, blank d = false) →
      (∀ d ∈ m.replace f t, blank d = false) ∧ (m.replace f t = [] → t = []) := by
    refine replace_induction (R := fun t u => (∀ d ∈ t, blank d = false) →
      (∀ d ∈ u, blank d = false) ∧ (u = [] → t = [])) hm (fun h => ⟨h, id⟩) ?_
      (fun _ h => ⟨h, id⟩) ?_ t
    · intro s t u v hst huv h
      obtain ⟨hs, hu⟩ := List.forall_mem_append.1 h
      refine ⟨List.forall_mem_append.2 ⟨(hst hs).1, (huv hu).1⟩, fun hnil => ?_⟩
      obtain ⟨ht, hv⟩ := List.append_eq_nil_iff.1 hnil
      rw [(hst hs).2 ht, (huv hu).2 hv, List.append_nil]
    · intro body hleast _ h
      obtain ⟨hne, hchars⟩ := hf body hleast fun d hd => h d (by simp [hd])
      exact ⟨hchars, fun hnil => absurd hnil hne⟩
  exact ⟨mt (hrel ht.2).2 ht.1, (hrel ht.2).1⟩

/-! ### Cutting a text -/

/-- A text is cut at a place where the mark is read as at the end. -/
theorem replace_append (hm : m.opening ≠ [])
    (h : ∀ u, m.read? (u ++ v) = (m.read? u).map fun (body, rest) => (body, rest ++ v))
    (u : Text) : m.replace f (u ++ v) = m.replace f u ++ m.replace f v := by
  have hs := scanned_scan (advances hm) u
  rw [m.replace_eq_flatMap f u]
  generalize scan m.read? u = ps at hs
  induction hs with
  | nil => rfl
  | span hf _ ih =>
    rw [replace_of_read? hm (by rw [h, hf]; rfl), ih, List.flatMap_cons, List.append_assoc]
    rfl
  | plain hf _ ih =>
    rw [List.cons_append, replace_cons_of_none (by rw [← List.cons_append, h, hf]; rfl), ih]
    rfl

/-- A mark without a closing is read before a character that it cannot go over as at the end. -/
theorem read?_append_cons (hclosing : m.closing = []) (ho : c ∉ m.opening) (hc : m.body c = false)
    (s t : Text) : m.read? (s ++ c :: t) =
      (m.read? s).map fun (body, rest) => (body, rest ++ c :: t) := by
  cases hs : m.read? s with
  | some found =>
    obtain ⟨body, rest⟩ := found
    obtain ⟨rfl, hleast, hbody, hends⟩ := read?_eq_some_iff.1 hs
    rw [hclosing, List.nil_append] at hends
    rw [Option.map_some, read?_eq_some_iff, hclosing]
    exact ⟨by simp, hleast, hbody, ends_append_cons hends hc t⟩
  | none =>
    rw [Option.map_none, Option.eq_none_iff_forall_ne_some]
    rintro ⟨body, rest⟩ h
    obtain ⟨ht, hleast, hbody, hends⟩ := read?_eq_some_iff.1 h
    rw [hclosing, List.append_nil] at ht
    rw [hclosing, List.nil_append] at hends
    have hmark : c ∉ m.opening ++ body := by
      rw [List.mem_append, not_or]
      exact ⟨ho, fun hmem => absurd (hbody c hmem) (by simp [hc])⟩
    obtain ⟨more, hmore, rfl⟩ := exists_append_of_append_eq hmark ht.symm
    have hread : m.read? s = some (body, more) := by
      rw [read?_eq_some_iff, hclosing, List.append_nil]
      exact ⟨hmore, hleast, hbody, hends.of_append⟩
    rw [hs] at hread
    contradiction

/-- A text is cut at a character that a mark without a closing does not go over. -/
theorem replace_append_cons (hm : m.opening ≠ []) (hclosing : m.closing = []) (ho : c ∉ m.opening)
    (hc : m.body c = false) (s t : Text) :
    m.replace f (s ++ c :: t) = m.replace f s ++ c :: m.replace f t := by
  have hnone : m.read? (c :: t) = none := by
    have hread := read?_append_cons hclosing ho hc [] t
    rwa [read?_nil hm] at hread
  rw [replace_append hm fun u => read?_append_cons hclosing ho hc u t, replace_cons_of_none hnone]

/-- A text in front without the character that starts a mark is kept. -/
theorem replace_append_of_start_notMem {more : Text} (ho : m.opening = c :: more) (hs : c ∉ s)
    (t : Text) : m.replace f (s ++ t) = s ++ m.replace f t := by
  refine replace_append_of_none fun u hne hu => read?_of_ends ho ?_
  obtain ⟨d, u, rfl⟩ := List.exists_cons_of_ne_nil hne
  refine ends_cons (decide_eq_false ?_) _
  rintro rfl
  exact hs (hu.mem List.mem_cons_self)

/-- A mark that a character delimits is read before a text without that character as at the end. -/
theorem read?_append_of_notMem {q : Char} (hbody : m.body = fun c => decide (c ≠ q))
    (hclosing : m.closing = [q]) (hv : q ∉ v) (u : Text) :
    m.read? (u ++ v) = (m.read? u).map fun (body, rest) => (body, rest ++ v) := by
  cases hu : m.read? u with
  | some found =>
    obtain ⟨body, rest⟩ := found
    obtain ⟨hleast, hq, rfl⟩ := (read?_delimited_iff hbody hclosing).1 hu
    rw [Option.map_some, read?_delimited_iff hbody hclosing]
    exact ⟨hleast, hq, List.append_assoc _ _ _⟩
  | none =>
    rw [Option.map_none, Option.eq_none_iff_forall_ne_some]
    rintro ⟨body, rest⟩ h
    obtain ⟨hleast, hq, ht⟩ := (read?_delimited_iff hbody hclosing).1 h
    rw [hclosing, List.append_assoc _ [q], List.singleton_append] at ht
    obtain ⟨more, hmore, rfl⟩ := exists_cons_of_append_eq hv ht
    have hread : m.read? u = some (body, more) := by
      rw [read?_delimited_iff hbody hclosing, hclosing]
      exact ⟨hleast, hq, by simp [hmore]⟩
    rw [hu] at hread
    contradiction

theorem replace_append_of_notMem {q : Char} (hm : m.opening ≠ [])
    (hbody : m.body = fun c => decide (c ≠ q)) (hclosing : m.closing = [q]) (ho : q ∈ m.opening)
    (hv : q ∉ v) (u : Text) : m.replace f (u ++ v) = m.replace f u ++ v := by
  rw [replace_append hm (read?_append_of_notMem hbody hclosing hv), replace_of_notMem ho hv]

/-! ### Changed texts -/

/-- A mark without a closing is read where its opening stands before a character of its class. -/
theorem read?_eq_none_iff_of_unclosed (hclosing : m.closing = []) (hleast : m.least = 1) :
    m.read? t = none ↔ ∀ c, m.body c = true → ¬ m.opening ++ [c] <+: t := by
  rw [Option.eq_none_iff_forall_ne_some]
  constructor
  · rintro h c hc ⟨more, rfl⟩
    refine h (c :: more.takeWhile m.body, more.dropWhile m.body) ?_
    rw [read?_eq_some_iff, hclosing]
    refine ⟨by simp, by simp [hleast], List.forall_mem_cons.2 ⟨hc, ?_⟩, ?_⟩
    · exact List.all_eq_true.1 List.all_takeWhile
    · exact ends_dropWhile m.body more
  · rintro h ⟨body, rest⟩ hread
    obtain ⟨ht, hlength, hbody, -⟩ := read?_eq_some_iff.1 hread
    obtain ⟨c, body, rfl⟩ := List.exists_cons_of_length_pos (by omega : 0 < body.length)
    refine h c (hbody c List.mem_cons_self) ⟨body ++ m.closing ++ rest, ?_⟩
    rw [ht]
    simp

/-- A replacement that takes a character away from each span changes a text exactly when a span is
read in it. -/
theorem replace_eq_self_iff (hm : m.opening ≠ []) {q : Char}
    (hq : ∀ body, (∀ c ∈ body, m.body c = true) →
      (f body).count q < (m.opening ++ body ++ m.closing).count q) :
    m.replace f t = t ↔ ∀ u, u <:+ t → m.read? u = none := by
  refine ⟨fun h => ?_, replace_of_none⟩
  have hcount : ∀ t, (m.replace f t).count q ≤ t.count q := by
    refine replace_induction (R := fun t u => u.count q ≤ t.count q) hm (Nat.le_refl 0) ?_
      (fun c => Nat.le_refl _) fun body _ hbody => (hq body hbody).le
    intro s t u v hst huv
    rw [List.count_append, List.count_append]
    exact Nat.add_le_add hst huv
  induction t with
  | nil =>
    intro u hu
    rw [List.suffix_nil.1 hu, read?_nil hm]
  | cons c t ih =>
    cases hread : m.read? (c :: t) with
    | some found =>
      -- a span that is replaced takes a character with it for good
      obtain ⟨body, rest⟩ := found
      obtain ⟨ht, -, hbody, -⟩ := read?_eq_some_iff.1 hread
      rw [replace_of_read? hm hread, ht] at h
      have hlt := hq body hbody
      have hle := hcount rest
      have heq : (f body).count q + (m.replace f rest).count q =
          (m.opening ++ body ++ m.closing).count q + rest.count q := by
        rw [← List.count_append, h, List.count_append]
      omega
    | none =>
      rw [replace_cons_of_none hread, List.cons.injEq] at h
      intro u hu
      rcases List.suffix_cons_iff.1 hu with rfl | hu
      · exact hread
      · exact ih h.2 u hu

end Wireframe.Mark
