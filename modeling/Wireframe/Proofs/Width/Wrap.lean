import Wireframe.Proofs.Text.Split
import Wireframe.Proofs.Width.Pieces

/-! Wrapped text. Wrapping keeps the ink of every text (`ink_wrap`), since the pieces of the
words are set into lines in their order. What the lines have in common is settled by the piece that
begins a line and those that stay on it (`exists_fill_eq_cons`, `forall_mem_setLines`). So the
lines of a simple text fit the width (`charSum_le_of_mem_wrap`): a line is begun anew as soon as the
piece that comes next has no room, and alone every piece has (`charSum_le_of_mem_pieces`). A line is
made of words with single spaces between them (`squeeze_of_mem_wrap`), and such a line is set as it
is where it has room (`wrap_of_charSum_le`). -/

namespace Wireframe.Text

open Width

theorem wrap_eq_map {limit : Nat} (hl : 2 ≤ limit) (t : Text) :
    wrap limit t = (setLines limit (pieces limit t)).map (join [' ']) :=
  if_neg (by omega)

/-! ### Ink -/

theorem flatten_pieces (limit : Nat) (t : Text) : (pieces limit t).flatten = ink t := by
  have hsplit : ∀ ws : List Text, (ws.flatMap (splitWord limit 0)).flatten = ws.flatten := by
    intro ws
    induction ws with
    | nil => rfl
    | cons w ws ih =>
      rw [List.flatMap_cons, List.flatten_append, flatten_splitWord, ih, List.flatten_cons]
  rw [pieces, hsplit, flatten_words]

/-- Wrapping neither loses nor adds ink. -/
theorem ink_wrap {limit : Nat} (hl : 2 ≤ limit) (t : Text) :
    ink (wrap limit t).flatten = ink t := by
  rw [wrap_eq_map hl, ink_flatten_map_join rfl, flatten_setLines, flatten_pieces, ink_ink]

theorem mem_of_mem_pieces {limit : Nat} {t piece : Text} {c : Char} (hp : piece ∈ pieces limit t)
    (hc : c ∈ piece) : c ∈ t := by
  refine mem_of_mem_ink ?_
  rw [← flatten_pieces limit t]
  exact List.mem_flatten.2 ⟨piece, hp, hc⟩

theorem mem_of_mem_setLines {limit : Nat} {ps line : List Text} {piece : Text}
    (hl : line ∈ setLines limit ps) (hp : piece ∈ line) : piece ∈ ps := by
  rw [← flatten_setLines limit ps]
  exact List.mem_flatten.2 ⟨line, hl, hp⟩

theorem simple_of_mem_wrap {limit : Nat} {t line : Text} (ht : t.Simple)
    (h : line ∈ wrap limit t) : line.Simple := by
  unfold wrap at h
  split at h
  · rw [List.mem_singleton.1 h]
    exact ht.mono fun c hc => List.mem_of_mem_take hc
  · obtain ⟨ps, hps, rfl⟩ := List.mem_map.1 h
    refine simple_join (by decide) fun piece hp => ht.mono fun c hc => ?_
    exact mem_of_mem_pieces (mem_of_mem_setLines hps hp) hc

/-! ### At least one line -/

theorem setLines_ne_nil (limit : Nat) (ps : List Text) : setLines limit ps ≠ [] := by
  cases ps with
  | nil => exact List.cons_ne_nil _ _
  | cons p ps => exact growFirst_ne_nil p _

theorem wrap_ne_nil (limit : Nat) (t : Text) : wrap limit t ≠ [] := by
  rw [wrap]
  split
  · exact List.cons_ne_nil _ _
  · exact List.map_eq_nil_iff.not.2 (setLines_ne_nil limit _)

/-! ### Words -/

/-- From two columns on no piece is empty. -/
theorem isWord_of_mem_pieces {limit : Nat} (hl : 2 ≤ limit) {t piece : Text}
    (h : piece ∈ pieces limit t) : piece.IsWord := by
  obtain ⟨word, hw, hp⟩ := List.mem_flatMap.1 h
  obtain ⟨hne, hinked⟩ := isWord_of_mem_words hw
  refine ⟨(cutLate_splitWord hl hne).ne_nil piece hp, fun c hc => hinked c ?_⟩
  rw [← flatten_splitWord limit 0 word]
  exact List.mem_flatten.2 ⟨piece, hp, hc⟩

/-- A line holds words with single spaces between them. -/
theorem squeeze_of_mem_wrap {limit : Nat} (hl : 2 ≤ limit) {t line : Text}
    (h : line ∈ wrap limit t) : squeeze line = line := by
  rw [wrap_eq_map hl] at h
  obtain ⟨ps, hps, rfl⟩ := List.mem_map.1 h
  exact squeeze_join fun p hp => isWord_of_mem_pieces hl (mem_of_mem_setLines hps hp)

/-! ### Room -/

theorem charSum_le_of_mem_pieces {limit : Nat} (hl : 2 ≤ limit) {t piece : Text}
    (h : piece ∈ pieces limit t) : charSum piece ≤ limit := by
  obtain ⟨word, hw, hp⟩ := List.mem_flatMap.1 h
  exact (cutLate_splitWord hl (ne_nil_of_mem_words hw)).charSum_le hl piece hp

theorem charSum_join_cons (piece : Text) (more : List Text) :
    charSum (join [' '] (piece :: more)) = charSum piece + charSum (join [' '] ([] :: more)) := by
  rw [join_cons, join_cons, charSum_append, List.nil_append]

theorem charSum_join_nil_cons (piece : Text) (more : List Text) :
    charSum (join [' '] ([] :: piece :: more)) =
      1 + charSum piece + charSum (join [' '] ([] :: more)) := by
  have hspace : charSum [' '] = 1 := by decide
  rw [join_cons, join_cons, List.nil_append, List.nil_append, List.flatMap_cons, charSum_append,
    charSum_append, hspace]

section

variable {limit : Nat} {P : Nat → List Text → Prop} {Q : List Text → Prop} {ps : List Text}
  (empty : ∀ used, P used [])
  (stays : ∀ p ∈ ps, ∀ used line, used + 1 + width p ≤ limit → P (used + 1 + width p) line →
    P used (p :: line))
  (begins : ∀ p ∈ ps, ∀ line, P (width p) line → Q (p :: line))
include empty stays begins

/-- Pieces are set into a line begun and further lines. What holds of the line begun with the
columns taken on it, `P`, is settled by the pieces that stay there, and what holds of each further
line, `Q`, by the piece that begins it and those that stay with it. -/
theorem exists_fill_eq_cons (used : Nat) :
    ∃ first more, fill limit used ps = first :: more ∧ P used first ∧ ∀ line ∈ more, Q line := by
  induction ps generalizing used with
  | nil => exact ⟨[], [], rfl, empty used, List.forall_mem_nil _⟩
  | cons p ps ih =>
    obtain ⟨hstay, hstays⟩ := List.forall_mem_cons.1 stays
    obtain ⟨hbegin, hbegins⟩ := List.forall_mem_cons.1 begins
    by_cases hroom : used + 1 + width p ≤ limit
    · obtain ⟨first, more, he, hfirst, hmore⟩ := ih hstays hbegins (used + 1 + width p)
      refine ⟨p :: first, more, ?_, hstay used first hroom hfirst, hmore⟩
      rw [fill, if_pos hroom, he, growFirst]
    · obtain ⟨first, more, he, hfirst, hmore⟩ := ih hstays hbegins (width p)
      have hlines := List.forall_mem_cons.2 ⟨hbegin first hfirst, hmore⟩
      refine ⟨[], (p :: first) :: more, ?_, empty used, hlines⟩
      rw [fill, if_neg hroom, he, growFirst]

/-- Every line of one or more pieces is begun by one of them. -/
theorem forall_mem_setLines (hne : ps ≠ []) : ∀ line ∈ setLines limit ps, Q line := by
  obtain ⟨p, ps, rfl⟩ := List.exists_cons_of_ne_nil hne
  obtain ⟨-, hstays⟩ := List.forall_mem_cons.1 stays
  obtain ⟨hbegin, hbegins⟩ := List.forall_mem_cons.1 begins
  obtain ⟨first, more, he, hfirst, hmore⟩ := exists_fill_eq_cons empty hstays hbegins (width p)
  rw [setLines, he, growFirst]
  exact List.forall_mem_cons.2 ⟨hbegin first hfirst, hmore⟩

end

/-- The lines of a simple text fit the width it is wrapped to. -/
theorem charSum_le_of_mem_wrap {limit : Nat} (hl : 2 ≤ limit) {t line : Text} (ht : t.Simple)
    (h : line ∈ wrap limit t) : charSum line ≤ limit := by
  have hwidth : ∀ p ∈ pieces limit t, width p = charSum p := fun p hp =>
    width_of_simple (ht.mono fun _ hc => mem_of_mem_pieces hp hc)
  rw [wrap_eq_map hl] at h
  obtain ⟨ps, hps, rfl⟩ := List.mem_map.1 h
  by_cases hne : pieces limit t = []
  · rw [hne, setLines, List.mem_singleton] at hps
    rw [hps]
    exact Nat.zero_le limit
  · refine forall_mem_setLines (P := fun used line =>
      used ≤ limit → used + charSum (join [' '] ([] :: line)) ≤ limit)
      (Q := fun line => charSum (join [' '] line) ≤ limit) (fun _ hused => hused)
      (fun p hp used line hroom ih _ => ?_) (fun p hp line ih => ?_) hne ps hps
    · have hrest := ih hroom
      rw [charSum_join_nil_cons, ← hwidth p hp]
      omega
    · -- the piece that begins a line has room there alone
      have hp' := charSum_le_of_mem_pieces hl hp
      rw [charSum_join_cons, ← hwidth p hp]
      exact ih (hwidth p hp ▸ hp')

/-! ### Lines with room -/

theorem splitWord_of_charSum_le {limit used : Nat} {word : Text} (h : used + charSum word ≤ limit) :
    splitWord limit used word = [word] := by
  induction word generalizing used with
  | nil => rfl
  | cons c word ih =>
    rw [charSum] at h
    rw [splitWord, if_neg (by omega), ih (by omega), growFirst]

theorem fill_of_charSum_le {limit used : Nat} {ps : List Text} (hs : ∀ p ∈ ps, p.Simple)
    (h : used + charSum (join [' '] ([] :: ps)) ≤ limit) : fill limit used ps = [ps] := by
  induction ps generalizing used with
  | nil => rfl
  | cons p ps ih =>
    obtain ⟨hp, hps⟩ := List.forall_mem_cons.1 hs
    have hw := width_of_simple hp
    rw [charSum_join_nil_cons] at h
    rw [fill, if_pos (by omega), ih hps (by omega), growFirst]

theorem charSum_le_join {ps : List Text} {p : Text} (h : p ∈ ps) :
    charSum p ≤ charSum (join [' '] ps) := by
  induction ps with
  | nil => contradiction
  | cons q ps ih =>
    rw [charSum_join_cons]
    rcases List.mem_cons.1 h with rfl | h
    · exact Nat.le_add_right _ _
    · obtain ⟨r, more, rfl⟩ := List.exists_cons_of_ne_nil (List.ne_nil_of_mem h)
      have := ih h
      rw [charSum_join_cons] at this
      rw [charSum_join_nil_cons]
      omega

/-- A text whose words have room is not split. -/
theorem pieces_of_charSum_le {limit : Nat} {t : Text} (h : ∀ w ∈ words t, charSum w ≤ limit) :
    pieces limit t = words t := by
  have hword : ∀ w ∈ words t, splitWord limit 0 w = [w] := fun w hw =>
    splitWord_of_charSum_le ((Nat.zero_add _).trans_le (h w hw))
  rw [pieces, List.flatMap_congr hword, List.flatMap_singleton']

/-- A squeezed text that has room is one line. -/
theorem wrap_of_charSum_le {limit : Nat} (hl : 2 ≤ limit) {t : Text} (hs : t.Simple)
    (hq : squeeze t = t) (h : charSum t ≤ limit) : wrap limit t = [t] := by
  have hsum : charSum (join [' '] (words t)) ≤ limit := by rw [← squeeze, hq]; exact h
  have hpieces : pieces limit t = words t :=
    pieces_of_charSum_le fun _ hw => (charSum_le_join hw).trans hsum
  have hlines : setLines limit (words t) = [words t] := by
    cases hw : words t with
    | nil => rfl
    | cons w ws =>
      have hsimple : ∀ v ∈ w :: ws, v.Simple := fun v hv =>
        hs.mono fun c hc => mem_of_mem_ink (flatten_words t ▸ List.mem_flatten.2 ⟨v, hw ▸ hv, hc⟩)
      rw [hw, charSum_join_cons] at hsum
      obtain ⟨hw, hws⟩ := List.forall_mem_cons.1 hsimple
      rw [← width_of_simple hw] at hsum
      rw [setLines, fill_of_charSum_le hws hsum, growFirst]
  rw [wrap_eq_map hl, hpieces, hlines, List.map_singleton, ← squeeze, hq]

end Wireframe.Text
