import Wireframe.Proofs.Text.Ink
import Wireframe.Width.Text

/-! Simple characters: printable ASCII, CJK ideographs, kana and Hangul syllables. None of
them is shown together with a neighbour, so a simple text is as wide as its characters
are one by one (`width_of_simple`). Cutting and padding measure a simple text the same
way: what has room is not cut, and a padded text takes the room exactly
(`charSum_pad`). -/

namespace Wireframe

namespace Width

/-! ### Simple characters -/

def asciiRanges : List (Nat × Nat) := [(0x20, 0x7E)]

def ideographRanges : List (Nat × Nat) :=
  [(0x3005, 0x3007), (0x3021, 0x3029), (0x3038, 0x303B), (0x3400, 0x4DBF), (0x4E00, 0x9FFF),
    (0xF900, 0xFAFF), (0x20000, 0x2FFFD), (0x30000, 0x3FFFD)]

def kanaRanges : List (Nat × Nat) :=
  [(0x3041, 0x3096), (0x3099, 0x309F), (0x30A0, 0x30FF), (0x31F0, 0x31FF), (0xFF66, 0xFF9F),
    (0x1AFF0, 0x1AFFF), (0x1B000, 0x1B16F)]

def hangulRanges : List (Nat × Nat) := [(0xAC00, 0xD7A3)]

def simpleRanges : List (Nat × Nat) := asciiRanges ++ ideographRanges ++ kanaRanges ++ hangulRanges

/-- Printable ASCII, CJK ideographs, kana and Hangul syllables. -/
def isSimple (c : Char) : Bool := inRanges simpleRanges c

/-- Whether no range of the one list meets a range of the other. -/
def apart (p q : List (Nat × Nat)) : Bool :=
  p.all fun r => q.all fun s => decide (r.2 < s.1) || decide (s.2 < r.1)

theorem inRanges_iff {p : List (Nat × Nat)} {c : Char} :
    inRanges p c = true ↔ ∃ r ∈ p, r.1 ≤ c.toNat ∧ c.toNat ≤ r.2 := by
  simp [inRanges, List.any_eq_true]

theorem inRanges_of_apart {p q : List (Nat × Nat)} {c : Char} (h : apart p q = true)
    (hc : inRanges p c = true) : inRanges q c = false := by
  rw [Bool.eq_false_iff]
  intro hs
  obtain ⟨r, hr, hr1, hr2⟩ := inRanges_iff.1 hc
  obtain ⟨s, hs, hs1, hs2⟩ := inRanges_iff.1 hs
  have hrs := List.all_eq_true.1 (List.all_eq_true.1 h r hr) s hs
  simp only [Bool.or_eq_true, decide_eq_true_eq] at hrs
  omega

theorem ne_of_isSimple {c d : Char} (hc : isSimple c = true) (hd : isSimple d = false) : c ≠ d := by
  rintro rfl
  rw [hc] at hd
  contradiction

/-- The only simple white space is the space. -/
theorem not_blank_of_isSimple {c : Char} (h : isSimple c = true) (hc : c ≠ ' ') :
    blank c = false := by
  have hothers : apart simpleRanges (blankRanges.filter (· ≠ (0x20, 0x20))) = true := by
    decide
  rw [Bool.eq_false_iff]
  intro hb
  obtain ⟨r, hr, hlow, hhigh⟩ := inRanges_iff.1 hb
  by_cases hspace : r = (0x20, 0x20)
  · subst hspace
    refine hc (Char.toNat_inj.1 ?_)
    exact Nat.le_antisymm hhigh hlow
  · have hfalse := inRanges_of_apart hothers h
    have htrue : inRanges (blankRanges.filter (· ≠ (0x20, 0x20))) c = true :=
      inRanges_iff.2 ⟨r, List.mem_filter.2 ⟨hr, by simpa using hspace⟩, hlow, hhigh⟩
    rw [htrue] at hfalse
    contradiction

def controlRanges : List (Nat × Nat) := [(0, 0x1F), (0x7F, 0x9F)]

theorem inRanges_controlRanges (c : Char) : inRanges controlRanges c = isControl c := by
  simp only [inRanges, controlRanges, isControl, List.any_cons, List.any_nil, Bool.or_false]
  congr 1
  · rw [decide_eq_true (Nat.zero_le _), Bool.true_and, decide_eq_decide]
    omega
  · rw [decide_eq_decide.2 (Nat.lt_succ_iff (n := 0x9F)).symm]

theorem isControl_of_isSimple {c : Char} (h : isSimple c = true) : isControl c = false :=
  inRanges_controlRanges c ▸ inRanges_of_apart (by decide) h

theorem alone_of_isSimple {c : Char} (h : isSimple c = true) : alone c = (charWidth c, .other) := by
  have hn : c ≠ '\n' := ne_of_isSimple h (by decide)
  have htone : isTone c = false := inRanges_of_apart (by decide) h
  have hemoji : inRanges emojiRanges c = false := inRanges_of_apart (by decide) h
  have halef : inRanges alefRanges c = false := inRanges_of_apart (by decide) h
  simp [alone, hn, isControl_of_isSimple h, htone, hemoji, halef]

/-- A simple character before others adds its own width. -/
theorem place_of_isSimple {c : Char} (h : isSimple c = true) :
    place c .other = (charWidth c, .other) := by
  have he : c ≠ emojiSelector := ne_of_isSimple h (by decide)
  have ht : c ≠ textSelector := ne_of_isSimple h (by decide)
  change beside c .other = _
  simp only [beside, he, ht, if_false]
  exact alone_of_isSimple h

/-! ### Sums of widths -/

@[simp] theorem charSum_append (s t : Text) : charSum (s ++ t) = charSum s + charSum t := by
  induction s with
  | nil => simp [charSum]
  | cons c s ih => simp [charSum, ih, Nat.add_assoc]

theorem charSum_replicate (n : Nat) (c : Char) :
    charSum (List.replicate n c) = n * charWidth c := by
  induction n with
  | zero => simp [charSum]
  | succ n ih => rw [List.replicate_succ, charSum, ih, Nat.succ_mul, Nat.add_comm]

theorem charSum_spaces (n : Nat) : charSum (List.replicate n ' ') = n := by
  rw [charSum_replicate, show charWidth ' ' = 1 by decide, Nat.mul_one]

theorem charSum_le_of_prefix {s t : Text} (h : s <+: t) : charSum s ≤ charSum t := by
  obtain ⟨rest, rfl⟩ := h
  rw [charSum_append]
  exact Nat.le_add_right _ _

end Width

namespace Text

open Width

/-! ### Simple texts -/

def Simple (t : Text) : Prop := ∀ c ∈ t, isSimple c = true

instance (t : Text) : Decidable t.Simple := List.decidableBAll _ t

theorem simple_nil : Simple [] := List.forall_mem_nil _

theorem Simple.append {s t : Text} (hs : s.Simple) (ht : t.Simple) : (s ++ t).Simple := by
  intro c hc
  rcases List.mem_append.1 hc with hc | hc
  · exact hs c hc
  · exact ht c hc

theorem Simple.mono {s t : Text} (ht : t.Simple) (h : ∀ c ∈ s, c ∈ t) : s.Simple :=
  fun c hc => ht c (h c hc)

theorem simple_replicate {c : Char} (h : isSimple c = true) (n : Nat) :
    Simple (List.replicate n c) :=
  fun _ hd => List.eq_of_mem_replicate hd ▸ h

theorem simple_flatten {ls : List Text} (h : ∀ line ∈ ls, line.Simple) : Simple ls.flatten := by
  intro c hc
  obtain ⟨line, hl, hc⟩ := List.mem_flatten.1 hc
  exact h line hl c hc

/-- Joined simple texts are simple if what stands between them is. -/
theorem simple_join {sep : Text} {pieces : List Text} (hs : sep.Simple)
    (hp : ∀ piece ∈ pieces, piece.Simple) : (join sep pieces).Simple := by
  intro c hc
  rcases mem_of_mem_join hc with hc | hc
  · exact hs c hc
  · exact simple_flatten hp c hc

theorem measure_of_simple {t : Text} (h : t.Simple) : Width.measure t = (charSum t, .other) := by
  induction t with
  | nil => rfl
  | cons c t ih =>
    have hc : isSimple c = true := h c List.mem_cons_self
    have ht : Width.measure t = (charSum t, .other) :=
      ih fun d hd => h d (List.mem_cons_of_mem _ hd)
    simp only [Width.measure, ht, place_of_isSimple hc, charSum]

/-- A simple text is as wide as its characters. -/
theorem width_of_simple {t : Text} (h : t.Simple) : width t = charSum t := by
  rw [width, measure_of_simple h]

/-! ### Cutting and padding -/

theorem isPrefix_cut (room : Nat) (t : Text) : cut room t <+: t :=
  ⟨_, cut_append_drop room t⟩

/-- A text that has room is not cut. -/
theorem cut_of_charSum_le {room : Nat} {t : Text} (h : charSum t ≤ room) : cut room t = t := by
  induction t generalizing room with
  | nil => rfl
  | cons c t ih =>
    rw [charSum] at h
    rw [cut, if_neg (by omega), ih (by omega)]

theorem simple_cut {room : Nat} {t : Text} (h : t.Simple) : (cut room t).Simple :=
  h.mono fun _ hc => (isPrefix_cut room t).mem hc

theorem simple_pad {room : Nat} {t : Text} (h : t.Simple) : (pad room t).Simple :=
  (simple_cut h).append (simple_replicate (by decide) _)

/-- A padded simple text takes the room exactly. -/
theorem charSum_pad {room : Nat} {t : Text} (h : t.Simple) : charSum (pad room t) = room := by
  have hle := charSum_cut_le room t
  rw [pad, charSum_append, charSum_spaces, width_of_simple (simple_cut h)]
  omega

/-- Padding a text that has room adds no ink. -/
theorem ink_pad {room : Nat} {t : Text} (h : charSum t ≤ room) : ink (pad room t) = ink t := by
  have hspaces : isBlank (List.replicate (room - width t) ' ') = true :=
    List.all_eq_true.2 fun c hc => List.eq_of_mem_replicate hc ▸ (by decide)
  rw [pad, cut_of_charSum_le h, ink_append, ink_eq_nil_iff.2 hspaces, List.append_nil]

/-- Padding texts that have room adds no ink. -/
theorem ink_flatten_map_pad {room : Nat} {ts : List Text} (h : ∀ t ∈ ts, charSum t ≤ room) :
    ink (ts.map (pad room)).flatten = ink ts.flatten := by
  induction ts with
  | nil => rfl
  | cons t ts ih =>
    obtain ⟨ht, hts⟩ := List.forall_mem_cons.1 h
    rw [List.map_cons, List.flatten_cons, List.flatten_cons, ink_append, ink_append, ink_pad ht,
      ih hts]

end Text

end Wireframe
