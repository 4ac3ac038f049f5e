import Wireframe.Proofs.Width.Simple

/-! Padding any text. A text is cut by the widths of its characters and filled up by its own width,
and the two need not agree: a control character takes a column in a text and none on its own, and
the selector of emoji makes a narrow character wide (`widens`). No other character makes a text
wider than its characters are, so a text is at most one column wider for each of these
(`width_le`), and so is a padded text than its room (`width_pad_between`). With one of
them a padded text can be too wide (`width_pad_ne_room`). -/

namespace Wireframe

namespace Width

/-! ### Characters with a width -/

/-- Whether each range of the one list lies in a range of the other. -/
def within (p q : List (Nat × Nat)) : Bool :=
  p.all fun r => q.any fun s => decide (s.1 ≤ r.1) && decide (r.2 ≤ s.2)

theorem inRanges_of_within {p q : List (Nat × Nat)} {c : Char} (h : within p q = true)
    (hc : inRanges p c = true) : inRanges q c = true := by
  obtain ⟨r, hr, hlow, hhigh⟩ := inRanges_iff.1 hc
  obtain ⟨s, hs, hrs⟩ := List.any_eq_true.1 (List.all_eq_true.1 h r hr)
  simp only [Bool.and_eq_true, decide_eq_true_eq] at hrs
  exact inRanges_iff.2 ⟨s, hs, hrs.1.trans hlow, hhigh.trans hrs.2⟩

/-- Bands of code points that hold all control characters and all characters of width 0. -/
def zeroBands : List (Nat × Nat) :=
  [(0, 0x1F), (0x7F, 0xA8), (0xAD, 0xAD), (0x300, 0x202E), (0x2060, 0x20F0), (0x2CEF, 0x302F),
    (0x3099, 0x3164), (0xA66F, 0x1E94A), (0xE0000, 0xE0FFF)]

section

variable {p : List (Nat × Nat)} {c : Char} (h : apart p zeroBands = true)
  (hc : inRanges p c = true)
include h hc

theorem isControl_of_apart : isControl c = false := by
  rw [← inRanges_controlRanges, Bool.eq_false_iff]
  intro hcontrol
  have hbands := inRanges_of_within (q := zeroBands) (by decide) hcontrol
  exact absurd hbands (Bool.eq_false_iff.1 (inRanges_of_apart h hc))

theorem inRanges_zeroRanges_of_apart : inRanges zeroRanges c = false := by
  rw [Bool.eq_false_iff]
  intro hzero
  have hbands := inRanges_of_within (q := zeroBands) (by decide +kernel) hzero
  exact absurd hbands (Bool.eq_false_iff.1 (inRanges_of_apart h hc))

theorem charWidth_pos_of_apart : 0 < charWidth c := by
  simp only [charWidth, isControl_of_apart h hc, inRanges_zeroRanges_of_apart h hc,
    Bool.false_eq_true, if_false]
  split_ifs <;> exact Nat.succ_pos _

end

theorem charWidth_pos_of_selectable {c : Char} (h : inRanges selectableRanges c = true) :
    0 < charWidth c :=
  charWidth_pos_of_apart (by decide +kernel) h

theorem charWidth_of_isTone {c : Char} (h : isTone c = true) : charWidth c = 2 := by
  have hbands : apart [(0x1F3FB, 0x1F3FF)] zeroBands = true := by decide
  have hwide : inRanges wideRanges c = true := inRanges_of_within (by decide) h
  have hascii : ¬ c.toNat < 0x7F := by
    obtain ⟨r, hr, hlow, -⟩ := inRanges_iff.1 h
    rw [List.mem_singleton.1 hr] at hlow
    omega
  simp only [charWidth, hascii, isControl_of_apart hbands h, inRanges_zeroRanges_of_apart hbands h,
    hwide, Bool.false_eq_true, if_false, if_true]

/-! ### What a character adds -/

/-- Whether a character can make a text wider than its characters are one by one. -/
def widens (c : Char) : Bool := (isControl c && c != '\n') || c == emojiSelector

/-- The column that a character may take for what stands after it. -/
def credit : Next → Nat
  | .emojiSelector _ => 1
  | _ => 0

theorem alone_le (c : Char) :
    (alone c).1 + credit (alone c).2 ≤ charWidth c + (widens c).toNat := by
  unfold alone
  split_ifs with hnewline hcontrol htone
  · exact Nat.zero_le _
  · have hwidens : widens c = true := by simp [widens, hnewline, hcontrol]
    simp [hwidens, credit]
  · simp [charWidth_of_isTone htone, credit]
  · simp [credit]
  · simp [credit]
  · simp [credit]

theorem beside_le (c : Char) (next : Next) :
    (beside c next).1 + credit (beside c next).2 ≤ charWidth c + (widens c).toNat := by
  have halone := alone_le c
  by_cases hselector : c = emojiSelector
  · have hwidens : widens c = true := by simp [widens, hselector]
    have hbeside : beside c next = (0, .emojiSelector (next = .joined)) := if_pos hselector
    rw [hbeside, hwidens]
    exact Nat.le_add_left _ _
  · -- any other character takes no column here, or what it takes alone
    cases next <;> simp only [beside, hselector, if_false] <;> split_ifs <;>
      first | exact halone | exact Nat.zero_le _

/-- A character adds no more than its width, but for the column of a control and the one that a
selector gives to the character before it. -/
theorem place_le (c : Char) (next : Next) : (place c next).1 + credit (place c next).2 ≤
    charWidth c + (widens c).toNat + credit next := by
  unfold place
  split
  · next joined =>
    split_ifs with hselectable hjoined
    · exact Nat.zero_le _
    · have := charWidth_pos_of_selectable hselectable
      simp only [credit]
      omega
    · exact Nat.le_add_right_of_le (beside_le c _)
    · exact Nat.le_add_right_of_le (beside_le c _)
  · split_ifs with hnarrowable
    · have hselectable : inRanges selectableRanges c = true := by
        simp only [isNarrowable, Bool.and_eq_true] at hnarrowable
        exact hnarrowable.1.1
      have := charWidth_pos_of_selectable hselectable
      simp only [credit]
      omega
    · exact Nat.le_add_right_of_le (beside_le c _)
  · exact Nat.le_add_right_of_le (beside_le c _)

theorem measure_le (t : Text) :
    (measure t).1 + credit (measure t).2 ≤ charSum t + t.countP widens := by
  induction t with
  | nil => exact Nat.le_refl 0
  | cons c t ih =>
    have hc := place_le c (measure t).2
    have hcount : (c :: t).countP widens = t.countP widens + (widens c).toNat := by
      rw [List.countP_cons]
      cases widens c <;> rfl
    rw [measure, charSum, hcount]
    dsimp only
    omega

/-- Characters that are measured on their own do not matter to those before them. -/
theorem measure_append_of_simple (t : Text) {s : Text} (hs : s.Simple) :
    measure (t ++ s) = ((measure t).1 + charSum s, (measure t).2) := by
  induction t with
  | nil => rw [List.nil_append, Text.measure_of_simple hs, measure, Nat.zero_add]
  | cons c t ih =>
    rw [List.cons_append, measure, ih, measure]
    exact Prod.ext (Nat.add_assoc _ _ _).symm rfl

end Width

namespace Text

open Width

/-- A text is at most a column wider than its characters for each one that can make it wider. -/
theorem width_le (t : Text) : width t ≤ charSum t + t.countP widens :=
  Nat.le_of_add_right_le (measure_le t)

/-! ### Cutting and padding -/

/-- A cut text is the longest start whose characters have room. -/
theorem isPrefix_cut_of_charSum_le {s t : Text} {room : Nat} (hs : s <+: t)
    (hroom : charSum s ≤ room) : s <+: cut room t := by
  induction s generalizing t room with
  | nil => exact List.nil_prefix
  | cons c s ih =>
    obtain ⟨rest, rfl⟩ := hs
    rw [charSum] at hroom
    rw [List.cons_append, cut, if_neg (by omega)]
    exact List.cons_prefix_cons.2 ⟨rfl, ih (List.prefix_append s rest) (by omega)⟩

/-- A padded text takes its room, unless what is cut from the text is already wider. -/
theorem width_pad (room : Nat) (t : Text) : width (pad room t) = max room (width (cut room t)) := by
  have hspaces : Simple (List.replicate (room - width (cut room t)) ' ') :=
    simple_replicate (by decide) _
  rw [pad, width, measure_append_of_simple _ hspaces, charSum_spaces]
  exact (Nat.add_comm _ _).trans (Nat.sub_add_eq_max _ _)

/-- A padded text is the longest start that has room, by its characters, and spaces after it. It is
never narrower than its room, and wider by at most one column for each character in it that can make
it wider, so that without them it takes its room exactly. -/
theorem width_pad_between (room : Nat) (t : Text) :
    cut room t <+: t ∧
      (∀ s, s <+: t → charSum s ≤ room → s <+: cut room t) ∧
      width (cut room t) ≤ room + (cut room t).countP widens ∧
      (∃ fill, pad room t = cut room t ++ List.replicate fill ' ') ∧
      room ≤ width (pad room t) ∧
      width (pad room t) ≤ room + (cut room t).countP widens := by
  have hcut : width (cut room t) ≤ room + (cut room t).countP widens :=
    (width_le (cut room t)).trans (Nat.add_le_add_right (charSum_cut_le room t) _)
  refine ⟨isPrefix_cut room t, fun _ => isPrefix_cut_of_charSum_le, hcut, ⟨_, rfl⟩, ?_, ?_⟩
  · rw [width_pad]
    exact Nat.le_max_left _ _
  · rw [width_pad]
    exact Nat.max_le.2 ⟨Nat.le_add_right _ _, hcut⟩

/-- A heart with the selector of emoji takes two columns, for which only one is counted. -/
theorem width_pad_ne_room :
    let t := "\u2764\uFE0Fab".toList
    cut 3 t = t ∧ width (cut 3 t) = 4 ∧ pad 3 t = t ∧ width (pad 3 t) ≠ 3 := by
  decide +kernel

end Text

end Wireframe
