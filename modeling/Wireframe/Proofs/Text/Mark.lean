import Wireframe.Proofs.Text.Run
import Wireframe.Text.Mark

/-! Marks and scans. A mark is read exactly where its opening, a run of its class and its closing
stand (`Mark.read?_eq_some_iff`). What a scan finds is determined by its text: at each place the
span that is read there, or else the character (`scanned_iff`). A text in which the spans of a mark
are replaced is related to the text as its parts are (`Mark.replace_induction`). -/

namespace Wireframe

open Text

/-! ### Marks -/

namespace Mark

variable {m : Mark} {t body rest : Text}

theorem read?_eq_some_iff : m.read? t = some (body, rest) ↔
    t = m.opening ++ body ++ m.closing ++ rest ∧ m.least ≤ body.length ∧
      (∀ c ∈ body, m.body c = true) ∧ Ends m.body (m.closing ++ rest) := by
  constructor
  · intro h
    obtain ⟨hleast, hbody⟩ := body_of_read? h
    refine ⟨eq_of_read? h, hleast, hbody, ?_⟩
    simp only [read?, Option.bind_eq_some_iff] at h
    obtain ⟨inner, -, h⟩ := h
    split at h
    · contradiction
    · obtain ⟨r, hr, he⟩ := Option.map_eq_some_iff.1 h
      cases he
      rw [← after?_eq_some_iff.1 hr]
      exact ends_dropWhile m.body inner
  · rintro ⟨rfl, hleast, hbody, hends⟩
    have hopen : after? m.opening (m.opening ++ body ++ m.closing ++ rest) =
        some (body ++ (m.closing ++ rest)) := by
      rw [List.append_assoc, List.append_assoc, after?_append]
    rw [read?, hopen, Option.bind_some, takeWhile_append hbody hends, if_neg (by omega),
      dropWhile_append hbody hends, after?_append, Option.map_some]

/-- A mark whose body is ended by the first character of its closing. -/
theorem read?_delimited_iff {q : Char} {more : Text} (hbody : m.body = fun c => decide (c ≠ q))
    (hclosing : m.closing = q :: more) : m.read? t = some (body, rest) ↔
      m.least ≤ body.length ∧ q ∉ body ∧ t = m.opening ++ body ++ m.closing ++ rest := by
  have hends : Ends m.body (m.closing ++ rest) := by
    rw [hclosing, hbody]
    exact ends_cons (by simp) _
  have hmem : (∀ c ∈ body, m.body c = true) ↔ q ∉ body := by
    rw [hbody]
    exact forall_ne_iff
  rw [read?_eq_some_iff, hmem]
  exact ⟨fun ⟨ht, hleast, hq, _⟩ => ⟨hleast, hq, ht⟩,
    fun ⟨hleast, hq, ht⟩ => ⟨ht, hleast, hq, hends⟩⟩

theorem read?_of_ends {c : Char} {more : Text} (ho : m.opening = c :: more)
    (h : Ends (· = c) t) : m.read? t = none := by
  rw [read?, ho, after?_of_ends h, Option.bind_none]

theorem whole?_eq_some_iff : m.whole? t = some body ↔ m.read? t = some (body, []) := by
  unfold whole?
  split
  · next b hr => simp [hr]
  · next hne => exact iff_of_false (by simp) fun hr => hne body hr

theorem whole?_delimited {q : Char} (hbody : m.body = fun c => decide (c ≠ q))
    (hclosing : m.closing = [q]) (hleast : m.least ≤ body.length) (hq : q ∉ body) :
    m.whole? (m.opening ++ (body ++ [q])) = some body := by
  rw [whole?_eq_some_iff, read?_delimited_iff hbody hclosing, hclosing]
  exact ⟨hleast, hq, by simp⟩

theorem whole?_unclosed (hclosing : m.closing = []) (hleast : m.least ≤ body.length)
    (hbody : ∀ c ∈ body, m.body c = true) : m.whole? (m.opening ++ body) = some body := by
  rw [whole?_eq_some_iff, read?_eq_some_iff, hclosing]
  exact ⟨by simp, hleast, hbody, by simp [Ends]⟩

theorem whole?_of_ends {c : Char} {more : Text} (ho : m.opening = c :: more)
    (h : Ends (· = c) t) : m.whole? t = none := by
  rw [whole?, read?_of_ends ho h]

end Mark

/-! ### Scans -/

section

variable {α : Type} {find : Text → Option (α × Text)} {c : Char} {t rest : Text} {a : α}
  {ps : List (Piece α)}

/-- The pieces of a text: at each place the span that is read there, or else its character. -/
inductive Scanned (find : Text → Option (α × Text)) : Text → List (Piece α) → Prop
  | nil : Scanned find [] []
  | span {c : Char} {t rest : Text} {a : α} {ps : List (Piece α)}
      (hf : find (c :: t) = some (a, rest)) (h : Scanned find rest ps) :
      Scanned find (c :: t) (.span a :: ps)
  | plain {c : Char} {t : Text} {ps : List (Piece α)} (hf : find (c :: t) = none)
      (h : Scanned find t ps) : Scanned find (c :: t) (.plain c :: ps)

/-- A span is not empty, and what follows it is the rest of the text. -/
def Advances (find : Text → Option (α × Text)) : Prop :=
  ∀ c t a rest, find (c :: t) = some (a, rest) → rest <:+ t

theorem drop_of_suffix (h : rest <:+ t) : t.drop (t.length - rest.length) = rest := by
  obtain ⟨lead, rfl⟩ := h
  rw [List.length_append, Nat.add_sub_cancel, List.drop_left]

theorem scanned_scanAfter (hfind : Advances find) (n : Nat) (t : Text) :
    Scanned find (t.drop n) (scanAfter find n t) := by
  fun_induction scanAfter find n t with
  | case1 =>
    rw [List.drop_nil]
    exact .nil
  | case2 n c t ih => exact ih
  | case3 c t a rest hf ih =>
    rw [drop_of_suffix (hfind c t a rest hf)] at ih
    exact .span hf ih
  | case4 c t hf ih => exact .plain hf ih

theorem scanned_scan (hfind : Advances find) (t : Text) : Scanned find t (scan find t) :=
  scanned_scanAfter hfind 0 t

theorem scan_of_scanned (hfind : Advances find) (h : Scanned find t ps) : scan find t = ps := by
  induction h with
  | nil => rfl
  | @span c t rest a ps hf _ ih =>
    rw [scan, scanAfter, hf]
    simp only
    rw [scanAfter_eq_scan_drop, drop_of_suffix (hfind c t a rest hf), ih]
  | plain hf _ ih =>
    rw [scan, scanAfter, hf]
    exact congrArg (_ :: ·) ih

/-- A text has the pieces that its scan finds and no others. -/
theorem scanned_iff (hfind : Advances find) : Scanned find t ps ↔ ps = scan find t :=
  ⟨fun h => (scan_of_scanned hfind h).symm, fun h => h ▸ scanned_scan hfind t⟩

/-- The text of a piece, given the texts of spans. -/
def Piece.text (shown : α → Text) : Piece α → Text
  | .plain c => [c]
  | .span a => shown a

end

theorem Mark.advances {m : Mark} (h : m.opening ≠ []) : Advances m.read? := by
  intro c t body rest hr
  have he := eq_of_read? hr
  obtain ⟨d, opening, ho⟩ := List.exists_cons_of_ne_nil h
  rw [ho, List.cons_append, List.cons_append, List.cons_append, List.cons.injEq] at he
  exact ⟨_, he.2.symm⟩

theorem Mark.replace_eq_flatMap (m : Mark) (f : Text → Text) (t : Text) :
    m.replace f t = (scan m.read? t).flatMap (Piece.text f) := by
  unfold Mark.replace
  congr 1
  funext piece
  cases piece <;> rfl

/-- What replaces the spans of a mark keeps any relation that holds between a span and what replaces
it, if the relation goes from parts to the text. -/
theorem Mark.replace_induction {m : Mark} (hm : m.opening ≠ []) {f : Text → Text}
    {R : Text → Text → Prop} (hnil : R [] [])
    (happend : ∀ {s t u v}, R s t → R u v → R (s ++ u) (t ++ v)) (hplain : ∀ c, R [c] [c])
    (hspan : ∀ body, m.least ≤ body.length → (∀ c ∈ body, m.body c = true) →
      R (m.opening ++ body ++ m.closing) (f body)) (t : Text) : R t (m.replace f t) := by
  rw [replace_eq_flatMap]
  have h := scanned_scan (advances hm) t
  generalize scan m.read? t = ps at h
  induction h with
  | nil => exact hnil
  | span hf _ ih =>
    obtain ⟨ht, hleast, hbody, -⟩ := read?_eq_some_iff.1 hf
    rw [ht]
    exact happend (hspan _ hleast hbody) ih
  | @plain c t ps _ _ ih => exact happend (hplain c) ih

end Wireframe
