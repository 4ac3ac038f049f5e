import Wireframe.Text.Basic

/-!
Decimal digits and numerals. A decimal digit is a character of the Unicode category Nd, whose
members lie in blocks of ten (`digitBlocks`); the ASCII digits are one of them. Numbers are written
and read in ASCII digits alone. The main statements: a numeral of ASCII digits is read by `readNat?`
as the number it writes, and nothing else is read.
-/

namespace Wireframe

/-! ### The category Nd -/

/-- The code points of the digits zero. -/
def digitBlocks : List Nat :=
  [0x30, 0x660, 0x6F0, 0x7C0, 0x966, 0x9E6, 0xA66, 0xAE6, 0xB66, 0xBE6, 0xC66, 0xCE6, 0xD66, 0xDE6,
    0xE50, 0xED0, 0xF20, 0x1040, 0x1090, 0x17E0, 0x1810, 0x1946, 0x19D0, 0x1A80, 0x1A90, 0x1B50,
    0x1BB0, 0x1C40, 0x1C50, 0xA620, 0xA8D0, 0xA900, 0xA9D0, 0xA9F0, 0xAA50, 0xABF0, 0xFF10, 0x104A0,
    0x10D30, 0x10D40, 0x11066, 0x110F0, 0x11136, 0x111D0, 0x112F0, 0x11450, 0x114D0, 0x11650,
    0x116C0, 0x116D0, 0x116DA, 0x11730, 0x118E0, 0x11950, 0x11BF0, 0x11C50, 0x11D50, 0x11DA0,
    0x11F50, 0x16130, 0x16A60, 0x16AC0, 0x16B50, 0x16D70, 0x1CCF0, 0x1D7CE, 0x1D7D8, 0x1D7E2,
    0x1D7EC, 0x1D7F6, 0x1E140, 0x1E2F0, 0x1E4F0, 0x1E5F1, 0x1E950, 0x1FBF0]

/-- A decimal digit of any script. -/
def digit (c : Char) : Bool :=
  digitBlocks.any fun first => decide (first ≤ c.toNat) && decide (c.toNat < first + 10)

theorem digit_of_isDigit {c : Char} (h : c.isDigit = true) : digit c = true := by
  simp only [Char.isDigit, Bool.and_eq_true, decide_eq_true_eq, UInt32.le_iff_toNat_le,
    ge_iff_le] at h
  have hc : c.toNat = c.val.toNat := rfl
  have h0 : '0'.val.toNat = 48 := rfl
  have h9 : '9'.val.toNat = 57 := rfl
  simp only [digit, digitBlocks, List.any_cons, Bool.or_eq_true, Bool.and_eq_true,
    decide_eq_true_eq]
  exact .inl (by omega)

namespace Text

/-! ### Numerals -/

/-- The numeral of a number. -/
def ofNat (n : Nat) : Text := Nat.toDigits 10 n

/-- The number that a list of ASCII digits writes, its first digit the highest. -/
def value (t : Text) : Nat := t.foldl (fun n c => 10 * n + (c.toNat - '0'.toNat)) 0

/-- Reads a numeral: one or more ASCII digits. -/
def readNat? (t : Text) : Option Nat :=
  if t ≠ [] ∧ t.all Char.isDigit then some (value t) else none

theorem readNat?_eq_some_iff {t : Text} {n : Nat} :
    readNat? t = some n ↔ t ≠ [] ∧ (∀ c ∈ t, c.isDigit = true) ∧ value t = n := by
  by_cases h : t ≠ [] ∧ t.all Char.isDigit = true
  · rw [readNat?, if_pos h]
    simp_all
  · rw [readNat?, if_neg h]
    simp only [reduceCtorEq, false_iff]
    rintro ⟨h₁, h₂, -⟩
    exact h ⟨h₁, List.all_eq_true.2 h₂⟩

end Text

end Wireframe
