import Wireframe.Text.Digit

/-! The numeral that is written for a number. It is one or more ASCII digits, it is
read back as the number, and it starts with a zero only if it is the numeral of
zero. A letter is no digit. -/

namespace Wireframe

theorem digit_eq_false_of_isAlpha {c : Char} (h : c.isAlpha = true) : digit c = false := by
  have hc : c.toNat = c.val.toNat := rfl
  have hletter : 0x41 ≤ c.toNat ∧ c.toNat < 0x660 := by
    have h : (decide (c.val ≥ 'A'.val ∧ c.val ≤ 'Z'.val) ||
        (decide (c.val ≥ 'a'.val) && decide (c.val ≤ 'z'.val))) = true := h
    simp only [Bool.or_eq_true, Bool.and_eq_true, decide_eq_true_eq, UInt32.le_iff_toNat_le,
      ge_iff_le] at h
    simp at h
    omega
  have hblocks : digitBlocks.all (fun first => first = 0x30 ∨ 0x660 ≤ first) = true := by decide
  refine List.any_eq_false.2 fun first hfirst => ?_
  have hfirst := of_decide_eq_true (List.all_eq_true.1 hblocks first hfirst)
  simp only [Bool.and_eq_true, decide_eq_true_eq]
  omega

namespace Text

theorem value_ofNat (n : Nat) : value (ofNat n) = n := by
  rw [value, ofNat, ← Nat.ofDigitChars_eq_foldl, Nat.ofDigitChars_ten_toDigits]

theorem isDigit_of_mem_ofNat {n : Nat} : ∀ c ∈ ofNat n, c.isDigit = true :=
  fun _ hc => Nat.isDigit_of_mem_toDigits (by decide) (by decide) hc

theorem ofNat_ne_nil (n : Nat) : ofNat n ≠ [] := Nat.toDigits_ne_nil

theorem head?_digitChar_ne_zero {n : Nat} (h : 0 < n) (hn : n < 10) : n.digitChar ≠ '0' := by
  have hall : ∀ k < 10, 0 < k → Nat.digitChar k ≠ '0' := by decide
  exact hall n hn h

/-- No numeral of a positive number starts with a zero. -/
theorem head?_ofNat_ne_zero {n : Nat} (h : 0 < n) : (ofNat n).head? ≠ some '0' := by
  induction n using Nat.strongRecOn with
  | ind n ih =>
    by_cases hn : n < 10
    · rw [ofNat, Nat.toDigits_of_lt_base hn]
      simpa using head?_digitChar_ne_zero h hn
    · have hq : (ofNat (n / 10)).head? ≠ some '0' := ih (n / 10) (by omega) (by omega)
      rw [ofNat, Nat.toDigits_of_base_le (by decide) (by omega), List.head?_append]
      rw [ofNat] at hq
      cases hd : (Nat.toDigits 10 (n / 10)).head? with
      | none => exact absurd (List.head?_eq_none_iff.1 hd) Nat.toDigits_ne_nil
      | some c =>
        rw [hd] at hq
        simpa using hq

theorem eq_zero_of_head?_ofNat {n : Nat} (h : (ofNat n).head? = some '0') : ofNat n = ['0'] := by
  rcases Nat.eq_zero_or_pos n with rfl | hn
  · rfl
  · exact absurd h (head?_ofNat_ne_zero hn)

end Text

end Wireframe
