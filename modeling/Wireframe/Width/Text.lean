import Wireframe.Width.Character

/-!
Display widths of texts. The width of a text is the sum of the widths of its characters, except
where neighbours are shown together: an emoji with a skin tone, a sequence of emoji held together by
joiners, a character with a selector that makes it an emoji or plain text, and an Arabic lam before
an alef. A control character takes one column in a text, a line feed and a carriage return before it
none. What a character adds depends on what follows it, so a text is measured from its end
(`measure`). `Text.cut` and `Text.pad` bring a text to a number of columns. The main statements: a
cut text is the start of the text and its characters have room (`cut_append_drop`,
`charSum_cut_le`).
-/

namespace Wireframe

namespace Width

/-! ### Neighbours -/

/-- What stands right after a character, as far as the character's width depends on it. -/
inductive Next where
  | other
  | newline
  | emoji
  /-- A joiner with an emoji after it. -/
  | joined
  | tone
  | alef
  | textSelector
  /-- The selector of emoji, which may itself stand before a joiner and an emoji. -/
  | emojiSelector (joined : Bool)
  deriving DecidableEq

def joiner : Char := '\u200D'

def textSelector : Char := '\uFE0E'

def emojiSelector : Char := '\uFE0F'

/-- The five skin tones. -/
def isTone (c : Char) : Bool := inRanges [(0x1F3FB, 0x1F3FF)] c

/-- Characters that may stand between a lam and an alef that are shown together. -/
def isTransparent (c : Char) : Bool :=
  inRanges zeroRanges c && ! inRanges [(0x200C, 0x200D)] c

/-- Emoji that the selector of text turns into a narrow character. -/
def isNarrowable (c : Char) : Bool :=
  inRanges selectableRanges c && inRanges emojiRanges c && ! inRanges [(0x1F200, 0x1F2FF)] c

/-- A character whose width does not depend on what follows. -/
def alone (c : Char) : Nat × Next :=
  if c = '\n' then (0, .newline)
  else if isControl c then (1, .other)
  else if isTone c then (2, .tone)
  else if inRanges emojiRanges c then (charWidth c, .emoji)
  else if inRanges alefRanges c then (charWidth c, .alef)
  else (charWidth c, .other)

/-- A character before something other than a selector. -/
def beside (c : Char) (next : Next) : Nat × Next :=
  if c = emojiSelector then (0, .emojiSelector (next = .joined))
  else if c = textSelector then (0, .textSelector)
  else
    match next with
    | .newline => if c = '\r' then (0, .other) else alone c
    | .emoji => if c = joiner then (0, .joined) else alone c
    | .tone =>
      if c = joiner then (0, .joined)
      else if inRanges toneBaseRanges c then (0, .emoji)
      else alone c
    | .joined =>
      if isTone c then (0, .tone)
      else if inRanges emojiRanges c then (0, .emoji)
      else alone c
    | .alef =>
      if inRanges lamRanges c then (0, .other)
      else if isTransparent c then (0, .alef)
      else alone c
    | _ => alone c

/-- The columns that a character adds in front of `next`, and what it is to the character before. -/
def place (c : Char) : Next → Nat × Next
  | .emojiSelector joined =>
    if inRanges selectableRanges c then (if joined then 0 else 2, .emoji)
    else beside c (if joined then .joined else .other)
  | .textSelector => if isNarrowable c then (1, .other) else beside c .other
  | next => beside c next

/-- The columns of a text, and what its start is to a character before it. -/
def measure : Text → Nat × Next
  | [] => (0, .other)
  | c :: t =>
    let rest := measure t
    let here := place c rest.2
    (here.1 + rest.1, here.2)

end Width

namespace Text

open Width

/-- The columns that a text takes on display. -/
def width (t : Text) : Nat := (measure t).1

@[simp] theorem width_nil : width [] = 0 := rfl

/-! ### Cutting and padding -/

/-- The longest start of a text whose characters, taken one by one, have room. -/
def cut : (room : Nat) → Text → Text
  | _, [] => []
  | room, c :: t => if room < charWidth c then [] else c :: cut (room - charWidth c) t

/-- The text cut to the room and filled up with spaces. -/
def pad (room : Nat) (t : Text) : Text :=
  cut room t ++ List.replicate (room - width (cut room t)) ' '

theorem cut_append_drop (room : Nat) (t : Text) : cut room t ++ t.drop (cut room t).length = t := by
  induction t generalizing room with
  | nil => simp [cut]
  | cons c t ih =>
    by_cases h : room < charWidth c
    · simp [cut, h]
    · simp [cut, h, ih]

theorem charSum_cut_le (room : Nat) (t : Text) : charSum (cut room t) ≤ room := by
  induction t generalizing room with
  | nil => simp [cut, charSum]
  | cons c t ih =>
    by_cases h : room < charWidth c
    · simp [cut, h, charSum]
    · have := ih (room - charWidth c)
      simp only [cut, h, ↓reduceIte, charSum]
      omega

end Text

end Wireframe
