import Wireframe.Json.Token
import Wireframe.Proofs.Text.Numeral
import Wireframe.Proofs.Text.Run

/-! Numerals are read from each of their spellings. The exponent may follow a small or a capital
letter, with or without a plus sign (`Numeral.Spelled`); whatever is spelled so is read as the
numeral it spells (`Numeral.Spelled.read`). What is printed for a natural number is a spelling of
its numeral, which is in range if the number is below 2^64 (`readable_ofNat`). -/

namespace Wireframe

namespace Numeral

/-! ### Spellings -/

/-- One or more digits. -/
def Digits (t : Text) : Prop := t ≠ [] ∧ ∀ c ∈ t, c.isDigit = true

instance (t : Text) : Decidable (Digits t) :=
  haveI : Decidable (∀ c ∈ t, c.isDigit = true) := List.decidableBAll _ t
  inferInstanceAs (Decidable (t ≠ [] ∧ ∀ c ∈ t, c.isDigit = true))

/-- The spelling of the digits after the point. -/
inductive FractionSpelled : Text → Text → Prop
  | absent : FractionSpelled [] []
  | digits {t : Text} (ht : Digits t) : FractionSpelled t ('.' :: t)

/-- The spellings of an exponent. -/
inductive ExponentSpelled : Option (Bool × Text) → Text → Prop
  | absent : ExponentSpelled none []
  | bare {e : Char} {t : Text} (he : e = 'e' ∨ e = 'E') (ht : Digits t) :
      ExponentSpelled (some (false, t)) (e :: t)
  | plus {e : Char} {t : Text} (he : e = 'e' ∨ e = 'E') (ht : Digits t) :
      ExponentSpelled (some (false, t)) (e :: '+' :: t)
  | minus {e : Char} {t : Text} (he : e = 'e' ∨ e = 'E') (ht : Digits t) :
      ExponentSpelled (some (true, t)) (e :: '-' :: t)

/-- The spellings of a numeral; a zero starts no longer row of digits. -/
inductive Spelled : Numeral → Text → Prop
  | parts {negative : Bool} {whole fraction f x : Text} {exponent : Option (Bool × Text)}
      (hw : Digits whole) (h0 : whole.head? = some '0' → whole = ['0'])
      (hf : FractionSpelled fraction f) (hx : ExponentSpelled exponent x) :
      Spelled ⟨negative, whole, fraction, exponent⟩
        ((if negative then ['-'] else []) ++ (whole ++ (f ++ x)))

/-! ### Reading -/

theorem Digits.exists_cons {t : Text} (h : Digits t) : ∃ c u, t = c :: u ∧ c.isDigit = true := by
  obtain ⟨c, u, rfl⟩ := List.exists_cons_of_ne_nil h.1
  exact ⟨c, u, rfl, h.2 c List.mem_cons_self⟩

theorem Digits.head?_ne {t : Text} (h : Digits t) {c : Char} (hc : c.isDigit = false)
    (rest : Text) : (t ++ rest).head? ≠ some c := by
  obtain ⟨d, u, rfl, hd⟩ := h.exists_cons
  rintro he
  obtain rfl : d = c := Option.some.inj he
  rw [hc] at hd
  contradiction

theorem ExponentSpelled.head? {exponent : Option (Bool × Text)} {x : Text}
    (h : ExponentSpelled exponent x) : ∀ c ∈ x.head?, c = 'e' ∨ c = 'E' := by
  rintro c hc
  cases h with
  | absent => contradiction
  | bare he _ | plus he _ | minus he _ =>
    obtain rfl := Option.some.inj hc
    exact he

theorem ExponentSpelled.read {exponent : Option (Bool × Text)} {x : Text}
    (h : ExponentSpelled exponent x) : readExponent? x = some exponent := by
  cases h with
  | absent => rfl
  | bare he ht =>
    have hminus := ht.head?_ne (c := '-') (by decide) []
    have hplus := ht.head?_ne (c := '+') (by decide) []
    rw [List.append_nil] at hminus hplus
    simp only [readExponent?, if_pos he, if_neg hminus, Text.dropFirst, if_neg hplus]
    rw [if_pos ⟨ht.1, List.all_eq_true.2 ht.2⟩]
    simp [hminus]
  | plus he ht =>
    simp only [readExponent?, if_pos he, Text.dropFirst, List.head?_cons, List.tail_cons]
    simp [ht.1, List.all_eq_true.2 ht.2]
  | minus he ht =>
    simp only [readExponent?, if_pos he, List.head?_cons, List.tail_cons]
    simp [ht.1, List.all_eq_true.2 ht.2]

theorem FractionSpelled.read {fraction f x : Text} (h : FractionSpelled fraction f)
    (hx : ∀ c ∈ x.head?, c = 'e' ∨ c = 'E') : readFraction? (f ++ x) = some (fraction, x) := by
  cases h with
  | absent =>
    have ha : Text.after? ['.'] ([] ++ x) = none := by
      rw [Option.eq_none_iff_forall_ne_some]
      intro rest hr
      rw [Text.after?_eq_some_iff] at hr
      rcases hx '.' (by rw [← List.nil_append x, hr]; rfl) with h | h <;> contradiction
    rw [readFraction?, ha]
    rfl
  | digits ht =>
    have hfree : Text.Ends Char.isDigit x := fun c hc => by
      rcases hx c hc with rfl | rfl <;> decide
    have ha : Text.after? ['.'] ('.' :: fraction ++ x) = some (fraction ++ x) :=
      Text.after?_append ['.'] (fraction ++ x)
    rw [readFraction?, ha]
    simp only [Text.takeWhile_append ht.2 hfree, Text.dropWhile_append ht.2 hfree, if_neg ht.1]

/-- What follows the digits before the point does not start with a digit. -/
theorem FractionSpelled.ends {fraction f x : Text} (hf : FractionSpelled fraction f)
    (hx : ∀ c ∈ x.head?, c = 'e' ∨ c = 'E') : Text.Ends Char.isDigit (f ++ x) := by
  intro c hc
  cases hf with
  | absent =>
    rcases hx c hc with rfl | rfl <;> decide
  | digits _ =>
    obtain rfl : '.' = c := Option.some.inj hc
    decide

/-- A numeral is read from each of its spellings. -/
theorem Spelled.read {n : Numeral} {w : Text} (h : n.Spelled w) : read? w = some n := by
  cases h with
  | @parts negative whole fraction f x exponent hw h0 hf hx =>
    have hends := hf.ends hx.head?
    have hminus := hw.head?_ne (c := '-') (by decide) (f ++ x)
    have hunsigned : Text.dropFirst '-' ((if negative then ['-'] else []) ++ (whole ++ (f ++ x))) =
        whole ++ (f ++ x) := by
      cases negative with
      | true => rfl
      | false => exact if_neg hminus
    have hsign :
        decide (((if negative then ['-'] else []) ++ (whole ++ (f ++ x))).head? = some '-') =
          negative := by
      cases negative with
      | true => rfl
      | false => exact decide_eq_false hminus
    have hstart : ¬ (whole = [] ∨ whole.head? = some '0' ∧ whole ≠ ['0']) := by
      rintro (h | ⟨h, hne⟩)
      · exact hw.1 h
      · exact hne (h0 h)
    unfold read?
    simp only [hunsigned, Text.takeWhile_append hw.2 hends, Text.dropWhile_append hw.2 hends,
      if_neg hstart, hf.read hx.head?, hx.read, Option.bind_some, Option.map_some, hsign]

theorem isNumeralChar_of_digits {t : Text} (h : Digits t) :
    ∀ c ∈ t, Json.isNumeralChar c = true := fun c hc => by
  simp [Json.isNumeralChar, h.2 c hc]

theorem ExponentSpelled.chars {exponent : Option (Bool × Text)} {x : Text}
    (h : ExponentSpelled exponent x) : ∀ c ∈ x, Json.isNumeralChar c = true := by
  have hletter : ∀ e : Char, e = 'e' ∨ e = 'E' → Json.isNumeralChar e = true := by
    rintro e (rfl | rfl) <;> decide
  cases h with
  | absent => simp
  | bare he ht =>
    exact List.forall_mem_cons.2 ⟨hletter _ he, isNumeralChar_of_digits ht⟩
  | plus he ht | minus he ht =>
    exact List.forall_mem_cons.2 ⟨hletter _ he,
      List.forall_mem_cons.2 ⟨by decide, isNumeralChar_of_digits ht⟩⟩

theorem FractionSpelled.chars {fraction f : Text} (h : FractionSpelled fraction f) :
    ∀ c ∈ f, Json.isNumeralChar c = true := by
  cases h with
  | absent => simp
  | digits ht => exact List.forall_mem_cons.2 ⟨by decide, isNumeralChar_of_digits ht⟩

theorem Spelled.chars {n : Numeral} {w : Text} (h : n.Spelled w) :
    ∀ c ∈ w, Json.isNumeralChar c = true := by
  cases h with
  | @parts negative whole fraction f x exponent hw h0 hf hx =>
    simp only [List.forall_mem_append]
    refine ⟨?_, isNumeralChar_of_digits hw, hf.chars, hx.chars⟩
    cases negative <;> simp [Json.isNumeralChar]

theorem Spelled.start {n : Numeral} {w : Text} (h : n.Spelled w) :
    ∃ c t, w = c :: t ∧ (c = '-' ∨ c.isDigit = true) := by
  cases h with
  | @parts negative whole fraction f x exponent hw h0 hf hx =>
    cases negative with
    | true => exact ⟨'-', _, rfl, .inl rfl⟩
    | false =>
      obtain ⟨c, t, rfl, hc⟩ := hw.exists_cons
      exact ⟨c, _, rfl, .inr hc⟩

/-! ### Natural numbers -/

theorem print_ofNat (n : Nat) : (ofNat n).print = Text.ofNat n := by
  simp [print, ofNat]

theorem spelled_ofNat (n : Nat) : (ofNat n).Spelled (Text.ofNat n) := by
  have hd : Digits (Text.ofNat n) := ⟨Text.ofNat_ne_nil n, Text.isDigit_of_mem_ofNat⟩
  have h : (ofNat n).Spelled ((if false then ['-'] else []) ++ (Text.ofNat n ++ ([] ++ []))) :=
    .parts hd Text.eq_zero_of_head?_ofNat .absent .absent
  rwa [List.append_nil, List.append_nil] at h

theorem le_foldl_digits (t : Text) (s : Nat) :
    s ≤ t.foldl (fun n c => 10 * n + (c.toNat - '0'.toNat)) s := by
  induction t generalizing s with
  | nil => exact Nat.le_refl s
  | cons c t ih =>
    apply Nat.le_trans _ (ih (10 * s + (c.toNat - '0'.toNat)))
    omega

/-- Digits that write a number below 2^64 are all taken in. -/
theorem takeWhole_eq {s : Nat} {t : Text}
    (h : t.foldl (fun n c => 10 * n + (c.toNat - '0'.toNat)) s < UInt64.size) :
    takeWhole s t = (t.foldl (fun n c => 10 * n + (c.toNat - '0'.toNat)) s, 0) := by
  induction t generalizing s with
  | nil => rfl
  | cons c t ih =>
    rw [List.foldl_cons] at h
    have hnext := Nat.lt_of_le_of_lt (le_foldl_digits t _) h
    simp only [takeWhole]
    rw [if_pos hnext, ih h, List.foldl_cons]

theorem inRange_ofNat {n : Nat} (h : n < UInt64.size) : (ofNat n).inRange = true := by
  have hv := Text.value_ofNat n
  unfold Text.value at hv
  have hw : takeWhole 0 (Text.ofNat n) = (n, 0) := by
    rw [takeWhole_eq (by rw [hv]; exact h), hv]
  have hs : (ofNat n).scaled = (n, 0) := by
    simp [scaled, ofNat, hw, takeFraction]
  unfold inRange
  rw [hs]
  simp

/-- Numerals that are read back as they are printed. -/
structure Readable (n : Numeral) : Prop where
  spelled : n.Spelled n.print
  inRange : n.inRange = true

theorem readable_ofNat {n : Nat} (h : n < UInt64.size) : (ofNat n).Readable :=
  ⟨print_ofNat n ▸ spelled_ofNat n, inRange_ofNat h⟩

end Numeral

end Wireframe
