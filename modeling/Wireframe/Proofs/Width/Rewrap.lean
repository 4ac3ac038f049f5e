import Wireframe.Proofs.Text.Clean
import Wireframe.Proofs.Width.Wrap

/-! Wrapped text read again. For any text, whatever its characters, the lines keep its ink and hold
nothing but words with single spaces between them (`keepsText_wrap`). The words of the lines are the
pieces that were set (`flatMap_words_wrap`), which are not split any further in as much room. So
the lines joined by spaces are wrapped into the same lines, and each line alone is one line
(`wrap_join_wrap`). -/

namespace Wireframe.Text

open Width

/-! ### Lines of words -/

theorem ne_nil_of_mem_setLines {limit : Nat} {ps : List Text} (h : ps ≠ []) :
    ∀ line ∈ setLines limit ps, line ≠ [] :=
  forall_mem_setLines (P := fun _ _ => True) (fun _ => trivial) (fun _ _ _ _ _ _ => trivial)
    (fun p _ line _ => List.cons_ne_nil p line) h

section

variable {limit : Nat} (hl : 2 ≤ limit)
include hl

theorem pieces_eq_nil_iff {t : Text} : pieces limit t = [] ↔ t.isBlank = true := by
  rw [← ink_eq_nil_iff, ← flatten_pieces limit t, List.flatten_eq_nil_iff]
  constructor
  · intro h
    simp [h]
  · intro h
    refine List.eq_nil_iff_forall_not_mem.2 fun piece hp => ?_
    exact (isWord_of_mem_pieces hl hp).1 (h piece hp)

theorem wrap_of_isBlank {t : Text} (h : t.isBlank = true) : wrap limit t = [[]] := by
  rw [wrap_eq_map hl, (pieces_eq_nil_iff hl).2 h]
  rfl

/-- A line holds words with single spaces between them, and at least one if the text has any. -/
theorem exists_words_of_mem_wrap {t line : Text} (h : line ∈ wrap limit t) :
    ∃ ws, line = join [' '] ws ∧ (∀ w ∈ ws, IsWord w) ∧ (t.isBlank = false → ws ≠ []) := by
  rw [wrap_eq_map hl] at h
  obtain ⟨ws, hws, rfl⟩ := List.mem_map.1 h
  refine ⟨ws, rfl, fun w hw => isWord_of_mem_pieces hl (mem_of_mem_setLines hws hw), fun ht => ?_⟩
  refine ne_nil_of_mem_setLines (fun hnil => ?_) ws hws
  rw [(pieces_eq_nil_iff hl).1 hnil] at ht
  contradiction

/-- The words of the lines are the pieces. -/
theorem flatMap_words_wrap (t : Text) : (wrap limit t).flatMap words = pieces limit t := by
  have hlines : ∀ line ∈ setLines limit (pieces limit t), words (join [' '] line) = line :=
    fun line hline => words_join fun p hp =>
      isWord_of_mem_pieces hl (mem_of_mem_setLines hline hp)
  rw [wrap_eq_map hl, List.flatMap_map, List.flatMap_congr hlines, List.flatMap_id',
    flatten_setLines]

end

/-! ### What is kept -/

/-- What lines keep of a text they are to show: its ink, its words if each of them has room, and
single spaces between words. A text without words is one empty line. -/
structure KeepsText (limit : Nat) (t : Text) (ls : List Text) : Prop where
  ink_eq : ink ls.flatten = ink t
  singleSpaced : t.isBlank = false → ∀ line ∈ ls, line ≠ [] ∧ line.SingleSpaced
  eq_of_isBlank : t.isBlank = true → ls = [[]]
  words_eq : (∀ w ∈ words t, charSum w ≤ limit) → ls.flatMap words = words t

theorem keepsText_wrap {limit : Nat} (hl : 2 ≤ limit) (t : Text) :
    KeepsText limit t (wrap limit t) where
  ink_eq := ink_wrap hl t
  singleSpaced ht line h := by
    obtain ⟨ws, rfl, hws, hne⟩ := exists_words_of_mem_wrap hl h
    obtain ⟨w, ws, rfl⟩ := List.exists_cons_of_ne_nil (hne ht)
    refine ⟨?_, singleSpaced_join hws⟩
    rw [join_cons]
    exact List.append_ne_nil_of_left_ne_nil (hws w List.mem_cons_self).1 _
  eq_of_isBlank := wrap_of_isBlank hl
  words_eq h := by rw [flatMap_words_wrap hl, pieces_of_charSum_le h]

/-- Words with any white space between them: a heart with the selector of emoji, wide characters, an
accent, and a joiner on its own. -/
def sampleMixed : Text := " \u2764\uFE0F\t日本語\u2003e\u0301xyz\r\n\u200D ".toList

theorem keepsText_wrap_sampleMixed :
    2 ≤ 6 ∧ KeepsText 6 sampleMixed (wrap 6 sampleMixed) ∧ sampleMixed.isBlank = false ∧
      (∀ w ∈ words sampleMixed, charSum w ≤ 6) ∧
      wrap 6 sampleMixed =
        ["\u2764\uFE0F", "日本語", "e\u0301xyz \u200D"].map String.toList := by
  refine ⟨by decide, keepsText_wrap (by decide) sampleMixed, by decide, ?_, ?_⟩
  · decide +kernel
  · decide +kernel

/-! ### Wrapping again -/

/-- Words that have room are not split again. -/
theorem wrap_join {limit : Nat} (hl : 2 ≤ limit) {ws : List Text} (hw : ∀ w ∈ ws, IsWord w)
    (hroom : ∀ w ∈ ws, charSum w ≤ limit) :
    wrap limit (join [' '] ws) = (setLines limit ws).map (join [' ']) := by
  have hwords : words (join [' '] ws) = ws := words_join hw
  rw [wrap_eq_map hl, pieces_of_charSum_le (by rwa [hwords]), hwords]

/-- Each line of some pieces is one line again in as much room. -/
theorem setLines_of_mem_setLines {limit wider : Nat} (hw : limit ≤ wider) {ps line : List Text}
    (h : line ∈ setLines limit ps) : setLines wider line = [line] := by
  by_cases hne : ps = []
  · rw [hne, setLines, List.mem_singleton] at h
    rw [h, setLines]
  · -- the columns taken before a piece are the same as they were
    refine forall_mem_setLines (P := fun used line => fill wider used line = [line])
      (Q := fun line => setLines wider line = [line]) (fun _ => rfl)
      (fun p _ used line hroom ih => ?_) (fun p _ line ih => ?_) hne line h
    · rw [fill, if_pos (hroom.trans hw), ih, growFirst]
    · rw [setLines, ih, growFirst]

/-- The lines of a wrapped text joined by spaces are its pieces joined by spaces. -/
theorem join_wrap {limit : Nat} (hl : 2 ≤ limit) (t : Text) :
    join [' '] (wrap limit t) = join [' '] (pieces limit t) := by
  rw [wrap_eq_map hl]
  by_cases hnil : pieces limit t = []
  · rw [hnil]
    rfl
  · rw [join_map_join [' '] (ne_nil_of_mem_setLines hnil), flatten_setLines]

/-- Wrapping is stable for every text: the lines joined by spaces are wrapped into themselves, and
each line is one line in as much room or more. -/
theorem wrap_join_wrap {limit : Nat} (hl : 2 ≤ limit) (t : Text) :
    wrap limit (join [' '] (wrap limit t)) = wrap limit t ∧
      ∀ line ∈ wrap limit t, ∀ wider, limit ≤ wider → wrap wider line = [line] := by
  have hword : ∀ p ∈ pieces limit t, IsWord p := fun _ hp => isWord_of_mem_pieces hl hp
  have hroom : ∀ p ∈ pieces limit t, charSum p ≤ limit := fun _ hp =>
    charSum_le_of_mem_pieces hl hp
  constructor
  · rw [join_wrap hl, wrap_join hl hword hroom, ← wrap_eq_map hl]
  · intro line h wider hw
    rw [wrap_eq_map hl] at h
    obtain ⟨ps, hps, rfl⟩ := List.mem_map.1 h
    rw [wrap_join (hl.trans hw) (fun p hp => hword p (mem_of_mem_setLines hps hp))
      (fun p hp => (hroom p (mem_of_mem_setLines hps hp)).trans hw),
      setLines_of_mem_setLines hw hps, List.map_singleton]

theorem wrap_join_wrap_sampleMixed :
    2 ≤ 3 ∧ "e\u0301xy".toList ∈ wrap 3 sampleMixed ∧
      wrap 3 (join [' '] (wrap 3 sampleMixed)) = wrap 3 sampleMixed ∧
      wrap 4 "e\u0301xy".toList = ["e\u0301xy".toList] := by
  have hroom : 2 ≤ 3 := by decide
  have hline : "e\u0301xy".toList ∈ wrap 3 sampleMixed := by decide +kernel
  obtain ⟨hjoin, hlines⟩ := wrap_join_wrap hroom sampleMixed
  exact ⟨hroom, hline, hjoin, hlines _ hline 4 (by decide)⟩

end Wireframe.Text
