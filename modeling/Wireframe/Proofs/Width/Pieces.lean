import Mathlib.Data.List.Chain
import Wireframe.Proofs.Width.Simple
import Wireframe.Width.Pieces
import Wireframe.Width.Wrap

/-! Pieces of a word, cut as late as possible. There is one such way of cutting a word
(`CutLate.unique`). Reading one more character makes the last piece longer or begins another, and
either way what has been read is cut late (`CutLate.grow`, `CutLate.cut`), so that this way is
found by position in every width (`splitAtPositions_eq_iff`). From two columns on, where every
character has room, the words of a text that is wrapped are split so (`cutLate_splitWord`). -/

namespace Wireframe.Text

open Width

variable {limit : Nat} {word seen piece : Text} {ps qs : List Text} {c : Char}

/-! ### Cutting late -/

/-- Pieces of a word that are cut as late as possible. None is empty, each has room or is a single
character, and none has room for the first character of the next. -/
structure CutLate (limit : Nat) (word : Text) (ps : List Text) : Prop where
  flatten_eq : ps.flatten = word
  ne_nil : ∀ p ∈ ps, p ≠ []
  room : ∀ p ∈ ps, charSum p ≤ limit ∨ p.length = 1
  late : ps.IsChain fun p next => ∀ c ∈ next.head?, limit < charSum p + charWidth c

namespace CutLate

theorem singleton (limit : Nat) (c : Char) : CutLate limit [c] [[c]] where
  flatten_eq := rfl
  ne_nil := by simp
  room := by simp
  late := List.isChain_singleton _

/-- The last piece is made longer where there is room. -/
theorem grow (h : CutLate limit seen (ps ++ [piece])) (hc : charSum piece + charWidth c ≤ limit) :
    CutLate limit (seen ++ [c]) (ps ++ [piece ++ [c]]) := by
  obtain ⟨hne, hpiece⟩ := List.forall_mem_append.1 h.ne_nil
  obtain ⟨hroom, -⟩ := List.forall_mem_append.1 h.room
  obtain ⟨hlate, -, hlast⟩ := List.isChain_append.1 h.late
  rw [List.forall_mem_singleton] at hpiece
  constructor
  · simp [← h.flatten_eq]
  · refine List.forall_mem_append.2 ⟨hne, List.forall_mem_singleton.2 ?_⟩
    exact List.append_ne_nil_of_left_ne_nil hpiece [c]
  · refine List.forall_mem_append.2 ⟨hroom, List.forall_mem_singleton.2 (.inl ?_)⟩
    rw [charSum_append]
    exact hc
  · -- the piece begins with the same character as before
    refine List.isChain_append.2 ⟨hlate, List.isChain_singleton _, fun p hp next hnext d hd => ?_⟩
    obtain rfl : piece ++ [c] = next := by simpa using hnext
    rw [List.head?_append_of_ne_nil _ hpiece] at hd
    exact hlast p hp piece (by simp) d hd

/-- Another piece is begun where there is none. -/
theorem cut (h : CutLate limit seen (ps ++ [piece])) (hc : limit < charSum piece + charWidth c) :
    CutLate limit (seen ++ [c]) (ps ++ [piece] ++ [[c]]) := by
  constructor
  · simp [← h.flatten_eq]
  · exact List.forall_mem_append.2 ⟨h.ne_nil, List.forall_mem_singleton.2 (List.cons_ne_nil c [])⟩
  · exact List.forall_mem_append.2 ⟨h.room, List.forall_mem_singleton.2 (.inr rfl)⟩
  · refine List.isChain_append.2 ⟨h.late, List.isChain_singleton _, fun p hp next hnext d hd => ?_⟩
    obtain rfl : piece = p := by simpa using hp
    obtain rfl : [c] = next := by simpa using hnext
    obtain rfl : c = d := by simpa using hd
    exact hc

theorem tail (h : CutLate limit word (piece :: ps)) : CutLate limit ps.flatten ps where
  flatten_eq := rfl
  ne_nil := (List.forall_mem_cons.1 h.ne_nil).2
  room := (List.forall_mem_cons.1 h.room).2
  late := h.late.tail

theorem eq_nil_iff (h : CutLate limit word ps) : ps = [] ↔ word = [] := by
  constructor
  · rintro rfl
    exact h.flatten_eq.symm
  · intro hw
    have hnil := List.flatten_eq_nil_iff.1 (h.flatten_eq.trans hw)
    exact List.eq_nil_iff_forall_not_mem.2 fun p hp => h.ne_nil p hp (hnil p hp)

/-- No first piece could be longer. -/
theorem eq_of_prefix {p q : Text} (hp : CutLate limit word (p :: ps))
    (hq : CutLate limit word (q :: qs)) (h : p <+: q) : p = q := by
  obtain ⟨rest, rfl⟩ := h
  cases rest with
  | nil => exact (List.append_nil p).symm
  | cons c rest =>
    exfalso
    have hword : ps.flatten = c :: (rest ++ qs.flatten) := by
      have heq := hp.flatten_eq.trans hq.flatten_eq.symm
      simpa using heq
    -- what follows the shorter piece begins with `c`
    obtain ⟨next, more, rfl⟩ := List.exists_cons_of_ne_nil fun hnil => by
      rw [hp.tail.eq_nil_iff.1 hnil] at hword
      contradiction
    obtain ⟨d, next, rfl⟩ := List.exists_cons_of_ne_nil (hp.tail.ne_nil next List.mem_cons_self)
    obtain ⟨rfl, -⟩ := List.cons.inj hword
    have hlate : limit < charSum p + charWidth d := (List.isChain_cons_cons.1 hp.late).1 d rfl
    rcases hq.room (p ++ d :: rest) List.mem_cons_self with hroom | hone
    · rw [charSum_append, charSum] at hroom
      omega
    · have hlength := List.length_pos_iff.2 (hp.ne_nil p List.mem_cons_self)
      rw [List.length_append, List.length_cons] at hone
      omega

/-- There is one way to cut a word late. -/
theorem unique (hp : CutLate limit word ps) (hq : CutLate limit word qs) : ps = qs := by
  induction ps generalizing word qs with
  | nil => exact (hq.eq_nil_iff.2 (hp.eq_nil_iff.1 rfl)).symm
  | cons p ps ih =>
    cases qs with
    | nil => exact hp.eq_nil_iff.2 (hq.eq_nil_iff.1 rfl)
    | cons q qs =>
      have hpword : p <+: word := ⟨ps.flatten, hp.flatten_eq⟩
      have hqword : q <+: word := ⟨qs.flatten, hq.flatten_eq⟩
      have hfirst : p = q := by
        rcases List.prefix_or_prefix_of_prefix hpword hqword with h | h
        · exact hp.eq_of_prefix hq h
        · exact (hq.eq_of_prefix hp h).symm
      subst hfirst
      have hrest : ps.flatten = qs.flatten :=
        List.append_cancel_left (hp.flatten_eq.trans hq.flatten_eq.symm)
      rw [ih hp.tail (hrest ▸ hq.tail)]

/-- From two columns on a single character has room. -/
theorem charSum_le (h : CutLate limit word ps) (hl : 2 ≤ limit) : ∀ p ∈ ps, charSum p ≤ limit := by
  intro p hp
  rcases h.room p hp with hroom | hone
  · exact hroom
  · obtain ⟨c, rfl⟩ := List.length_eq_one_iff.1 hone
    exact (charWidth_le_two c).trans hl

end CutLate

/-! ### Reading a word -/

theorem foldr_growFirst_cons (piece first : Text) (more : List Text) :
    piece.foldr growFirst (first :: more) = (piece ++ first) :: more := by
  induction piece with
  | nil => rfl
  | cons c piece ih => rw [List.foldr_cons, ih, growFirst, List.cons_append]

/-- What has been read of a word is cut late, and the last piece is the one begun. -/
structure Splitting.Reads (limit : Nat) (seen piece : Text) (s : Splitting) : Prop where
  cutLate : CutLate limit seen (s.pieces ++ [piece])
  start_eq : s.start = byteSize s.pieces.flatten
  used_eq : s.used = charSum piece

namespace Splitting.Reads

variable {s : Splitting}

theorem seen_eq (h : Reads limit seen piece s) : seen = s.pieces.flatten ++ piece := by
  rw [← h.cutLate.flatten_eq]
  simp

theorem byteSize_seen (h : Reads limit seen piece s) :
    byteSize seen = s.start + byteSize piece := by
  rw [h.seen_eq, byteSize_append, h.start_eq]

/-- The piece begun is what lies between its start and the position reached. -/
theorem slice_eq (h : Reads limit seen piece s) (rest : Text) :
    slice s.start (byteSize seen) (seen ++ rest) = piece := by
  rw [h.byteSize_seen, h.start_eq, h.seen_eq, slice_append]

/-- The first character of a word never ends a piece. -/
theorem step_first (limit : Nat) (c : Char) (word : Text) :
    (Splitting.empty.step limit word 0 c).pieces = [] ∧
      Reads limit [c] [c] (Splitting.empty.step limit word 0 c) := by
  have hstep : Splitting.empty.step limit word 0 c = ⟨[], 0, 0 + charWidth c⟩ :=
    if_neg fun hcut => Nat.lt_irrefl 0 hcut.2
  rw [hstep]
  exact ⟨rfl, CutLate.singleton limit c, rfl, Nat.add_comm 0 (charWidth c)⟩

/-- A character that has room stays on the piece begun. -/
theorem step_of_room (h : Reads limit seen piece s) (hc : charSum piece + charWidth c ≤ limit)
    (word : Text) :
    (s.step limit word (byteSize seen) c).pieces = s.pieces ∧
      Reads limit (seen ++ [c]) (piece ++ [c]) (s.step limit word (byteSize seen) c) := by
  have hstep : s.step limit word (byteSize seen) c = { s with used := s.used + charWidth c } :=
    if_neg fun hcut => Nat.not_lt.2 hc (h.used_eq ▸ hcut.1)
  rw [hstep]
  refine ⟨rfl, h.cutLate.grow hc, h.start_eq, ?_⟩
  rw [charSum_append, h.used_eq]
  rfl

/-- A character that has none ends the piece begun. -/
theorem step_of_no_room (h : Reads limit seen piece s) {rest : Text} (hword : seen ++ rest = word)
    (hc : limit < charSum piece + charWidth c) :
    (s.step limit word (byteSize seen) c).pieces = s.pieces ++ [piece] ∧
      Reads limit (seen ++ [c]) [c] (s.step limit word (byteSize seen) c) := by
  have hpiece : piece ≠ [] := h.cutLate.ne_nil piece (by simp)
  have hstart : s.start < byteSize seen := by
    have := byteSize_pos hpiece
    rw [h.byteSize_seen]
    omega
  have hstep : s.step limit word (byteSize seen) c =
      ⟨s.pieces ++ [piece], byteSize seen, charWidth c⟩ := by
    rw [step, if_pos ⟨h.used_eq ▸ hc, hstart⟩, ← hword, h.slice_eq]
  rw [hstep]
  refine ⟨rfl, h.cutLate.cut hc, ?_, rfl⟩
  rw [← h.cutLate.flatten_eq]

theorem finish_eq (h : Reads limit word piece s) : s.finish word = s.pieces ++ [piece] := by
  have hslice := h.slice_eq []
  rw [List.append_nil] at hslice
  rw [finish, hslice]

/-- The pieces of a word that is read to its end are cut late. The rest of it is split as
`splitWord` does it, which goes on with the piece begun. -/
theorem finish_run (h : Reads limit seen piece s) {rest : Text} (hword : seen ++ rest = word) :
    CutLate limit word ((s.run limit word (positions (byteSize seen) rest)).finish word) ∧
      (s.run limit word (positions (byteSize seen) rest)).finish word =
        s.pieces ++ piece.foldr growFirst (splitWord limit (charSum piece) rest) := by
  induction rest generalizing seen piece s with
  | nil =>
    obtain rfl : seen = word := (List.append_nil seen).symm.trans hword
    have hfinish : (s.run limit seen []).finish seen = s.pieces ++ [piece] := h.finish_eq
    rw [positions, hfinish, splitWord, foldr_growFirst_cons, List.append_nil]
    exact ⟨h.cutLate, rfl⟩
  | cons c rest ih =>
    have hnext : seen ++ [c] ++ rest = word := (List.append_assoc seen [c] rest).trans hword
    have hpos : byteSize seen + c.utf8Size = byteSize (seen ++ [c]) := by simp [byteSize]
    rw [positions, run_cons, splitWord, hpos]
    by_cases hc : limit < charSum piece + charWidth c
    · obtain ⟨hpieces, hreads⟩ := h.step_of_no_room hword hc
      obtain ⟨hlate, heq⟩ := ih hreads hnext
      refine ⟨hlate, ?_⟩
      rw [heq, hpieces, if_pos hc, foldr_growFirst_cons, List.append_nil, List.append_assoc]
      rfl
    · obtain ⟨hpieces, hreads⟩ := h.step_of_room (Nat.not_lt.1 hc) word
      obtain ⟨hlate, heq⟩ := ih hreads hnext
      refine ⟨hlate, ?_⟩
      rw [heq, hpieces, if_neg hc, List.foldr_append, charSum_append]
      rfl

end Splitting.Reads

/-! ### The pieces of a word -/

/-- The first character of a word is on the first piece, whether or not it has room there. -/
theorem splitAtPositions_cons (limit : Nat) (c : Char) (word : Text) :
    CutLate limit (c :: word) (splitAtPositions limit (c :: word)) ∧
      splitAtPositions limit (c :: word) = growFirst c (splitWord limit (charWidth c) word) := by
  have hword : [c] ++ word = c :: word := rfl
  have hpos : 0 + c.utf8Size = byteSize [c] := Nat.add_comm 0 c.utf8Size
  obtain ⟨hpieces, hreads⟩ := Splitting.Reads.step_first limit c (c :: word)
  obtain ⟨hlate, heq⟩ := hreads.finish_run hword
  rw [splitAtPositions, positions, Splitting.run_cons, hpos]
  refine ⟨hlate, ?_⟩
  rw [heq, hpieces]
  rfl

/-- A word is split at positions in the one way that cuts late, whatever the width. -/
theorem splitAtPositions_eq_iff (hw : word ≠ []) :
    splitAtPositions limit word = ps ↔ CutLate limit word ps := by
  obtain ⟨c, rest, rfl⟩ := List.exists_cons_of_ne_nil hw
  have hlate := (splitAtPositions_cons limit c rest).1
  constructor
  · rintro rfl
    exact hlate
  · exact hlate.unique

example : splitAtPositions 1 "日本語".toList = ["日", "本", "語"].map String.toList := by
  decide +kernel

/-- Where every character has room, the first one needs no care. -/
theorem splitWord_eq_splitAtPositions (hl : 2 ≤ limit) (word : Text) :
    splitWord limit 0 word = splitAtPositions limit word := by
  cases word with
  | nil => rfl
  | cons c word =>
    have hc := charWidth_le_two c
    rw [(splitAtPositions_cons limit c word).2, splitWord, if_neg (by omega), Nat.zero_add]

theorem cutLate_splitWord (hl : 2 ≤ limit) (hw : word ≠ []) :
    CutLate limit word (splitWord limit 0 word) :=
  (splitAtPositions_eq_iff hw).1 (splitWord_eq_splitAtPositions hl word).symm

/-- The pieces of a word that is wrapped to two columns or more are those found by position. They
are cut as late as possible, each has room, and no other pieces are cut as late. -/
theorem cutLate_splitWord_unique (hl : 2 ≤ limit) (hw : word ≠ []) :
    splitWord limit 0 word = splitAtPositions limit word ∧
      CutLate limit word (splitWord limit 0 word) ∧
      (∀ p ∈ splitWord limit 0 word, charSum p ≤ limit) ∧
      ∀ ps, CutLate limit word ps → ps = splitWord limit 0 word := by
  have hlate := cutLate_splitWord hl hw
  exact ⟨splitWord_eq_splitAtPositions hl word, hlate, hlate.charSum_le hl,
    fun ps hps => hps.unique hlate⟩

/-- Accents at both ends of pieces, and wide characters that leave a column free or fill the last. -/
def sampleAccented : Text := "\u0301ab日e\u0301本xyz".toList

theorem cutLate_splitWord_unique_sampleAccented :
    2 ≤ 3 ∧ sampleAccented ≠ [] ∧
      splitWord 3 0 sampleAccented =
        ["\u0301ab", "日e\u0301", "本x", "yz"].map String.toList ∧
      splitWord 3 0 sampleAccented = splitAtPositions 3 sampleAccented ∧
      CutLate 3 sampleAccented (splitWord 3 0 sampleAccented) ∧
      (∀ p ∈ splitWord 3 0 sampleAccented, charSum p ≤ 3) ∧
      ∀ ps, CutLate 3 sampleAccented ps → ps = splitWord 3 0 sampleAccented := by
  have hroom : 2 ≤ 3 := by decide
  have hne : sampleAccented ≠ [] := by decide
  exact ⟨hroom, hne, by decide +kernel, cutLate_splitWord_unique hroom hne⟩

end Wireframe.Text
